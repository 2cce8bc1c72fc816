import DesignTokens.Proofs.Sequence
import DesignTokens.Proofs.Token.Names
import DesignTokens.Token.Merge
import Mathlib.Data.List.DropRight
import Mathlib.Data.List.Infix

/-!
# Merged trees, path by path

What several trees that are laid over one another have at a path. A token shows when no later tree
has anything at its path or a token further up; a group is put together from the groups at its path
in all trees after the last one that has a token there or further up.
-/

namespace DesignTokens

universe u

/-! ## Entries put over others -/

namespace Entries

variable {α : Type u}

/-- What a map has after entries are added: the last of them with the name, if there is one. -/
theorem get?_extend (target source : Entries α) (key : String) :
    get? (extend target source) key = (get? (ofPairs source) key).or (get? target key) := by
  -- `ofPairs` puts the same pairs over nothing, so both sides are an `extend` of a shorter list.
  induction source generalizing target with
  | nil =>
      simp [extend, ofPairs]
  | cons pair rest ih =>
      have hpairs : ofPairs (pair :: rest) = extend (put [] pair.1 pair.2) rest := rfl
      have htarget : extend target (pair :: rest) = extend (put target pair.1 pair.2) rest := rfl
      by_cases hkey : pair.1 = key
      · simp [hpairs, htarget, ih, hkey]
      · simp [hpairs, htarget, ih, hkey]

end Entries

/-! ## Nodes at the end of a path -/

namespace Node

/-- The attributes of a group; anything else has none. -/
def attributesOf : Option Node → Attributes
  | some (.group attributes _) => attributes
  | _ => {}

/-- The entries of a group; anything else has none. -/
def entriesOf : Option Node → Entries Node
  | some (.group _ children) => children
  | _ => []

def follow : Option Node → List String → Option Node
  | node, [] => node
  | node, name :: rest => follow (Entries.get? (entriesOf node) name) rest

def TokenAt (node : Option Node) (path : List String) : Prop :=
  ∃ token, follow node path = some (.token token)

/-- A token stands on the way to the end of the path. -/
def TokenAbove (node : Option Node) (path : List String) : Prop :=
  ∃ front, front <+: path ∧ front ≠ path ∧ TokenAt node front

def GroupAt (node : Option Node) (path : List String) : Prop :=
  ∃ attributes children, follow node path = some (.group attributes children)

instance (node : Option Node) (path : List String) : Decidable (TokenAt node path) :=
  match h : follow node path with
  | some (.token t) => isTrue ⟨t, h⟩
  | some (.group _ _) => isFalse fun ⟨_, htoken⟩ => by cases h.symm.trans htoken
  | none => isFalse fun ⟨_, htoken⟩ => by cases h.symm.trans htoken

instance (node : Option Node) (path : List String) : Decidable (TokenAbove node path) :=
  decidable_of_iff (∃ front ∈ path.inits, front ≠ path ∧ TokenAt node front) (by
    simp [TokenAbove])

variable {node lower : Option Node} {path rest : List String} {name : String}

@[simp] theorem entriesOf_none : entriesOf none = [] := rfl

@[simp] theorem entriesOf_token (token : Token) : entriesOf (some (.token token)) = [] := rfl

@[simp] theorem entriesOf_group (attributes : Attributes) (children : List (String × Node)) :
    entriesOf (some (.group attributes children)) = children := rfl

@[simp] theorem attributesOf_none : attributesOf none = {} := rfl

@[simp] theorem attributesOf_token (token : Token) : attributesOf (some (.token token)) = {} := rfl

@[simp] theorem attributesOf_group (attributes : Attributes) (children : List (String × Node)) :
    attributesOf (some (.group attributes children)) = attributes := rfl

@[simp] theorem follow_none (path : List String) : follow none path = none := by
  induction path with
  | nil =>
      rfl
  | cons name rest ih =>
      simpa [follow] using ih

/-- Following names one after the other is following them together. -/
theorem follow_append (node : Option Node) (front back : List String) :
    follow node (front ++ back) = follow (follow node front) back := by
  induction front generalizing node with
  | nil =>
      rfl
  | cons name rest ih =>
      exact ih (Entries.get? (entriesOf node) name)

theorem not_tokenAbove_nil : ¬ TokenAbove node [] := by
  intro h
  rcases h with ⟨front, hprefix, hne, -⟩
  exact hne (List.prefix_nil.1 hprefix)

/-- A token is above a path when it is at its first node or above the rest. -/
theorem tokenAbove_cons_iff :
    TokenAbove node (name :: rest) ↔
      TokenAt node [] ∨ TokenAbove (Entries.get? (entriesOf node) name) rest := by
  constructor
  · intro h
    rcases h with ⟨front, hprefix, hne, htoken⟩
    cases front with
    | nil =>
        exact Or.inl htoken
    | cons first more =>
        rcases List.cons_prefix_cons.1 hprefix with ⟨rfl, hmore⟩
        have hshorter : more ≠ rest := by
          intro heq
          exact hne (by rw [heq])
        exact Or.inr ⟨more, hmore, hshorter, htoken⟩
  · intro h
    rcases h with htoken | ⟨front, hprefix, hne, htoken⟩
    · exact ⟨[], List.nil_prefix .., by simp, htoken⟩
    · exact ⟨name :: front, List.cons_prefix_cons.2 ⟨rfl, hprefix⟩, by simpa using hne, htoken⟩

/-- Nothing stands below a token. -/
theorem follow_eq_none_of_tokenAbove (h : TokenAbove node path) : follow node path = none := by
  induction path generalizing node with
  | nil =>
      exact absurd h not_tokenAbove_nil
  | cons name rest ih =>
      rcases tokenAbove_cons_iff.1 h with ⟨token, htoken⟩ | hbelow
      · have hnode : node = some (.token token) := htoken
        simp [hnode, follow]
      · exact ih hbelow

/-- What holds of the names of every group holds of those of the group at any path. -/
theorem EachGroup.follow {demand : List String → Prop} {node found : Node} {path : List String}
    (h : node.EachGroup demand) (hfound : Node.follow (some node) path = some found) :
    found.EachGroup demand := by
  induction path generalizing node with
  | nil =>
      cases hfound
      exact h
  | cons name rest ih =>
      cases node with
      | token t =>
          simp [Node.follow] at hfound
      | group attributes children =>
          rcases eachGroup_group_iff.1 h with ⟨-, hchildren⟩
          cases hget : Entries.get? children name with
          | none =>
              simp [Node.follow, hget] at hfound
          | some child =>
              refine ih (hchildren.get? hget) ?_
              simpa [Node.follow, hget] using hfound

/-! ## A node laid over another -/

@[simp] theorem overlay_token (token : Token) : overlay lower (.token token) = .token token := by
  simp [overlay]

/-- A group laid over a node takes its metadata and entries and lays its own over them. -/
theorem overlay_group (attributes : Attributes) (children : List (String × Node)) :
    overlay lower (.group attributes children) =
      .group ((attributesOf lower).overlay attributes)
        (overlayEntries (entriesOf lower) children) := by
  cases lower with
  | none =>
      simp [overlay]
  | some existing =>
      cases existing with
      | token _ =>
          simp [overlay]
      | group _ _ =>
          simp [overlay]

/-- An entry laid over others is laid over the one of its name. -/
theorem get?_overlayEntries {upper : List (String × Node)} (h : (Entries.keys upper).Nodup)
    (lower : Entries Node) (name : String) :
    Entries.get? (overlayEntries lower upper) name =
      ((Entries.get? upper name).map (overlay (Entries.get? lower name))).or
        (Entries.get? lower name) := by
  induction upper generalizing lower with
  | nil =>
      simp [overlayEntries]
  | cons entry rest ih =>
      rcases entry with ⟨first, node⟩
      rcases List.nodup_cons.1 h with ⟨hfirst, hrest⟩
      have hget := ih hrest (Entries.put lower first (overlay (Entries.get? lower first) node))
      by_cases hname : first = name
      · subst hname
        -- The name does not come again, so the rest leaves what stands there now.
        have hgone : Entries.get? rest first = none := by
          have hnotMem : first ∉ Entries.keys rest := hfirst
          simpa [Entries.mem_keys_iff_isSome] using hnotMem
        rw [overlayEntries, hget]
        simp [Entries.get?, hgone]
      · rw [overlayEntries, hget]
        simp [Entries.get?, hname]

/-- Along every path, what is laid on top replaces tokens and is laid over groups; below one of its
tokens nothing is left. -/
theorem follow_overlay {upper : Node} (h : upper.EachGroup List.Nodup) (lower : Option Node)
    (path : List String) :
    follow (some (overlay lower upper)) path =
      if TokenAbove (some upper) path then none
      else ((follow (some upper) path).map (overlay (follow lower path))).or
        (follow lower path) := by
  -- Both nodes change with every step down, so the induction is on the segments.
  induction path generalizing upper lower with
  | nil =>
      simp [follow, not_tokenAbove_nil]
  | cons name rest ih =>
      cases upper with
      | token token =>
          have habove : TokenAbove (some (.token token)) (name :: rest) :=
            tokenAbove_cons_iff.2 (Or.inl ⟨token, rfl⟩)
          simp [habove, follow]
      | group attributes children =>
          rcases eachGroup_group_iff.1 h with ⟨hnames, hentries⟩
          have hroot : ¬ TokenAt (some (.group attributes children)) [] := by
            intro htoken
            rcases htoken with ⟨token, htoken⟩
            cases htoken
          have hentry := get?_overlayEntries hnames (entriesOf lower) name
          cases hchild : Entries.get? children name with
          | none =>
              -- The upper group has no such entry, and from here on only the lower one counts.
              have hgone : ¬ TokenAbove none rest := by
                intro habove
                rcases habove with ⟨front, -, -, token, htoken⟩
                simp at htoken
              simp [follow, overlay_group, tokenAbove_cons_iff, hroot, hentry, hchild,
                hgone]
          | some child =>
              have hbelow := ih (hentries.get? hchild) (Entries.get? (entriesOf lower) name)
              simp [follow, overlay_group, tokenAbove_cons_iff, hroot, hentry, hchild,
                hbelow]

/-- The names of entries laid over others are those of both. -/
theorem mem_keys_overlayEntries_iff {upper : List (String × Node)} {lower : Entries Node}
    {name : String} :
    name ∈ Entries.keys (overlayEntries lower upper) ↔
      name ∈ Entries.keys upper ∨ name ∈ Entries.keys lower := by
  induction upper generalizing lower with
  | nil =>
      simp [overlayEntries, Entries.keys]
  | cons entry rest ih =>
      rcases entry with ⟨first, node⟩
      have hput : name ∈ Entries.keys (Entries.put lower first
          (overlay (Entries.get? lower first) node)) ↔
            name = first ∨ name ∈ Entries.keys lower := by
        by_cases hname : first = name
        · simp [Entries.mem_keys_iff_isSome, hname]
        · simp [Entries.mem_keys_iff_isSome, hname, Ne.symm hname]
      have hkeys : Entries.keys ((first, node) :: rest) = first :: Entries.keys rest := rfl
      rw [overlayEntries, ih, hput, hkeys, List.mem_cons]
      tauto

/-- What is below a node with proper names has proper names. -/
theorem properNames_entriesOf {node : Option Node}
    (h : ∀ below, node = some below → below.EachGroup ProperNames) :
    ProperNames (Entries.keys (entriesOf node)) ∧ EachEntry ProperNames (entriesOf node) := by
  cases node with
  | none =>
      exact ⟨properNames_nil, eachEntry_nil⟩
  | some below =>
      cases below with
      | token t =>
          exact ⟨properNames_nil, eachEntry_nil⟩
      | group attributes children =>
          exact eachGroup_group_iff.1 (h _ rfl)

mutual

/-- A node laid over another brings in no names but those of the two. -/
theorem properNames_overlay {lower : Option Node} {upper : Node}
    (hlower : ∀ below, lower = some below → below.EachGroup ProperNames)
    (hupper : upper.EachGroup ProperNames) : (overlay lower upper).EachGroup ProperNames := by
  cases upper with
  | token t =>
      simp
  | group attributes children =>
      rcases eachGroup_group_iff.1 hupper with ⟨hnames, hchildren⟩
      rcases properNames_entriesOf hlower with ⟨hbelow, hentries⟩
      rw [overlay_group, eachGroup_group_iff]
      exact properNames_overlayEntries hbelow hentries hnames.2 hchildren

/-- Proper entries laid over proper ones are proper. -/
theorem properNames_overlayEntries {lower : Entries Node} {upper : List (String × Node)}
    (hnames : ProperNames (Entries.keys lower)) (hlower : EachEntry ProperNames lower)
    (hvalid : ValidNames (Entries.keys upper)) (hupper : EachEntry ProperNames upper) :
    ProperNames (Entries.keys (overlayEntries lower upper)) ∧
      EachEntry ProperNames (overlayEntries lower upper) := by
  cases upper with
  | nil =>
      simpa [overlayEntries] using ⟨hnames, hlower⟩
  | cons entry rest =>
      rcases entry with ⟨name, node⟩
      rcases eachEntry_cons_iff.1 hupper with ⟨hnode, hrest⟩
      rcases List.forall_mem_cons.1 hvalid with ⟨hname, hothers⟩
      have hover : (overlay (Entries.get? lower name) node).EachGroup ProperNames :=
        properNames_overlay (fun below hbelow => hlower.get? hbelow) hnode
      rw [overlayEntries]
      exact properNames_overlayEntries (hnames.put hname _) (hlower.put hover name) hothers hrest

end

end Node

namespace Attributes

@[simp] theorem overlay_empty (lower : Attributes) : lower.overlay {} = lower := by
  simp [overlay, Entries.extend]

end Attributes

/-! ## Trees laid over one another -/

namespace Tree

def root (tree : Tree) : Node :=
  .group tree.attributes tree.children

/-- What some segments lead to; no segments lead to the whole tree. -/
abbrev at? (tree : Tree) (path : List String) : Option Node :=
  Node.follow (some tree.root) path

abbrev TokenAt (tree : Tree) (path : List String) : Prop :=
  Node.TokenAt (some tree.root) path

/-- A token stands on the way to the end of the path. -/
abbrev TokenAbove (tree : Tree) (path : List String) : Prop :=
  Node.TokenAbove (some tree.root) path

abbrev GroupAt (tree : Tree) (path : List String) : Prop :=
  Node.GroupAt (some tree.root) path

/-- A token stands at the end of the path or on the way there. -/
def Covers (tree : Tree) (path : List String) : Prop :=
  tree.TokenAt path ∨ tree.TokenAbove path

instance (tree : Tree) (path : List String) : Decidable (tree.Covers path) :=
  inferInstanceAs (Decidable (_ ∨ _))

/-- The names of the entries of the group at a path, none without a group. -/
def namesAt (tree : Tree) (path : List String) : List String :=
  Entries.keys (Node.entriesOf (tree.at? path))

/-- The attributes of the group at a path, none without a group. -/
def attributesAt (tree : Tree) (path : List String) : Attributes :=
  Node.attributesOf (tree.at? path)

/-- The trees after the last one that covers a path. -/
def uncovered (trees : List Tree) (path : List String) : List Tree :=
  trees.rtakeWhile fun tree => ¬ tree.Covers path

variable {lower upper merged : Tree} {trees : List Tree} {path : List String}

/-- A lookup among the children is following the path from their group. -/
theorem lookupIn_cons (attributes : Attributes) (children : Entries Node) (name : String)
    (rest : List String) :
    lookupIn (name :: rest) children =
      Node.follow (some (.group attributes children)) (name :: rest) := by
  induction rest generalizing attributes children name with
  | nil =>
      rfl
  | cons next more ih =>
      cases hchild : Entries.get? children name with
      | none =>
          simp [lookupIn, Node.follow, hchild]
      | some child =>
          cases child with
          | token t =>
              simp [lookupIn, Node.follow, hchild]
          | group inner below =>
              have hbelow := ih inner below next
              simpa [lookupIn, Node.follow, hchild] using hbelow

/-- The nodes at the paths of a tree are those that its segments lead to. -/
theorem lookup_eq_at? (tree : Tree) {path : String} (h : Path.segments path ≠ []) :
    tree.lookup path = tree.at? (Path.segments path) := by
  rcases List.exists_cons_of_ne_nil h with ⟨name, rest, heq⟩
  rw [lookup, heq]
  exact lookupIn_cons tree.attributes tree.children name rest

/-- What a merged tree has at a path: nothing below a token of the upper one, else its node over the
lower one's. -/
theorem at?_merge (h : upper.EachGroup List.Nodup) (lower : Tree) (path : List String) :
    (lower.merge upper).at? path =
      if upper.TokenAbove path then none
      else ((upper.at? path).map (Node.overlay (lower.at? path))).or (lower.at? path) := by
  have hroot : upper.root.EachGroup List.Nodup := Node.eachGroup_group_iff.2 h
  have hmerge : (lower.merge upper).root = Node.overlay (some lower.root) upper.root := by
    simp [root, merge, Node.overlay_group]
  have hfollow := Node.follow_overlay hroot (some lower.root) path
  simpa [at?, hmerge] using hfollow

/-- What a merge leaves at a path: nothing below a token of the upper tree, this token at its own
path, the lower tree where the upper one has nothing, and the lower group below the upper one. -/
theorem at?_merge_cases (h : upper.EachGroup List.Nodup) (lower : Tree) (path : List String) :
    (upper.TokenAbove path ∧ upper.at? path = none ∧ (lower.merge upper).at? path = none) ∨
      (∃ t, upper.at? path = some (.token t) ∧
        (lower.merge upper).at? path = some (.token t)) ∨
      (¬ upper.Covers path ∧ upper.at? path = none ∧
        (lower.merge upper).at? path = lower.at? path) ∨
      ∃ attributes children, ¬ upper.Covers path ∧
        upper.at? path = some (.group attributes children) ∧
        (lower.merge upper).at? path =
          some (.group ((Node.attributesOf (lower.at? path)).overlay attributes)
            (Node.overlayEntries (Node.entriesOf (lower.at? path)) children)) := by
  have hget := at?_merge h lower path
  -- A token above hides the path; otherwise it depends on what the upper tree has there.
  by_cases habove : upper.TokenAbove path
  · have hnone : upper.at? path = none := Node.follow_eq_none_of_tokenAbove habove
    exact Or.inl ⟨habove, hnone, by simpa [habove] using hget⟩
  · cases hupper : upper.at? path with
    | none =>
        have hfree : ¬ upper.Covers path := by simp [Covers, Node.TokenAt, habove, hupper]
        exact Or.inr (Or.inr (Or.inl ⟨hfree, rfl, by simpa [habove, hupper] using hget⟩))
    | some node =>
        cases node with
        | token t =>
            exact Or.inr (Or.inl ⟨t, rfl, by simpa [habove, hupper] using hget⟩)
        | group attributes children =>
            have hfree : ¬ upper.Covers path := by simp [Covers, Node.TokenAt, habove, hupper]
            refine Or.inr (Or.inr (Or.inr ⟨attributes, children, hfree, rfl, ?_⟩))
            simpa [habove, hupper, Node.overlay_group] using hget

/-- A merged tree has the upper token, or the lower one where the upper tree has nothing. -/
theorem at?_merge_eq_token_iff (h : upper.EachGroup List.Nodup) {t : Token} :
    (lower.merge upper).at? path = some (.token t) ↔
      upper.at? path = some (.token t) ∨
        (upper.at? path = none ∧ ¬ upper.TokenAbove path) ∧ lower.at? path = some (.token t) := by
  -- The four cases are those of `at?_merge_cases`; each of them decides both sides.
  rcases at?_merge_cases h lower path with ⟨habove, hupper, hget⟩ | ⟨t, hupper, hget⟩ |
    ⟨hfree, hupper, hget⟩ | ⟨attributes, children, hfree, hupper, hget⟩
  · simp [habove, hupper, hget]
  · simp [hupper, hget]
  · have hopen : ¬ upper.TokenAbove path := fun habove => hfree (Or.inr habove)
    simp [hopen, hupper, hget]
  · simp [hupper, hget]

/-- A merged tree has the upper group, or the lower one where the upper tree does not cover it. -/
theorem groupAt_merge_iff (h : upper.EachGroup List.Nodup) :
    (lower.merge upper).GroupAt path ↔
      upper.GroupAt path ∨ ¬ upper.Covers path ∧ lower.GroupAt path := by
  rcases at?_merge_cases h lower path with ⟨habove, hupper, hget⟩ | ⟨t, hupper, hget⟩ |
    ⟨hfree, hupper, hget⟩ | ⟨attributes, children, hfree, hupper, hget⟩
  · have hcovers : upper.Covers path := Or.inr habove
    simp [Node.GroupAt, hcovers, hupper, hget]
  · have hcovers : upper.Covers path := Or.inl ⟨t, hupper⟩
    simp [Node.GroupAt, hcovers, hupper, hget]
  · simp [Node.GroupAt, hfree, hupper, hget]
  · simp [Node.GroupAt, hupper, hget]

/-- A merged tree has the names of both, unless the upper tree covers the path. -/
theorem mem_namesAt_merge_iff (h : upper.EachGroup List.Nodup) {name : String} :
    name ∈ (lower.merge upper).namesAt path ↔
      ¬ upper.Covers path ∧ (name ∈ upper.namesAt path ∨ name ∈ lower.namesAt path) := by
  rcases at?_merge_cases h lower path with ⟨habove, hupper, hget⟩ | ⟨t, hupper, hget⟩ |
    ⟨hfree, hupper, hget⟩ | ⟨attributes, children, hfree, hupper, hget⟩
  · have hcovers : upper.Covers path := Or.inr habove
    simp [namesAt, hcovers, hget, Entries.keys]
  · have hcovers : upper.Covers path := Or.inl ⟨t, hupper⟩
    simp [namesAt, hcovers, hget, Entries.keys]
  · simp [namesAt, hfree, hupper, hget, Entries.keys]
  · simp [namesAt, hfree, hupper, hget, Node.mem_keys_overlayEntries_iff]

/-- The metadata of a merged tree are the upper ones over the lower ones, unless the upper tree
covers the path. -/
theorem attributesAt_merge (h : upper.EachGroup List.Nodup) (lower : Tree) (path : List String) :
    (lower.merge upper).attributesAt path =
      if upper.Covers path then {}
      else (lower.attributesAt path).overlay (upper.attributesAt path) := by
  rcases at?_merge_cases h lower path with ⟨habove, hupper, hget⟩ | ⟨t, hupper, hget⟩ |
    ⟨hfree, hupper, hget⟩ | ⟨attributes, children, hfree, hupper, hget⟩
  · have hcovers : upper.Covers path := Or.inr habove
    simp [attributesAt, hcovers, hget]
  · have hcovers : upper.Covers path := Or.inl ⟨t, hupper⟩
    simp [attributesAt, hcovers, hget]
  · simp [attributesAt, hfree, hupper, hget]
  · simp [attributesAt, hfree, hupper, hget]

/-- A tree that covers the path leaves nothing of those before it. -/
theorem uncovered_append_singleton (trees : List Tree) (tree : Tree) (path : List String) :
    uncovered (trees ++ [tree]) path =
      if tree.Covers path then [] else uncovered trees path ++ [tree] := by
  by_cases hcovers : tree.Covers path
  · rw [uncovered, List.rtakeWhile_concat_neg _ _ _ (by simpa using hcovers), if_pos hcovers]
  · rw [uncovered, List.rtakeWhile_concat_pos _ _ _ (by simpa using hcovers), if_neg hcovers]
    rfl

/-! ## All of several trees -/

/-- The tree has at every path what the given trees, each laid over the ones before it, leave there.
The whole of an attribute comes from one tree, each key of the metadata from a tree of its own. -/
structure IsMergeOf (merged : Tree) (trees : List Tree) : Prop where
  token_iff : ∀ path t, merged.at? path = some (.token t) ↔
    Sequence.LastWith (fun tree => tree.at? path = some (.token t))
      (fun tree => tree.at? path = none ∧ ¬ tree.TokenAbove path) trees
  group_iff : ∀ path, path ≠ [] → (merged.GroupAt path ↔
    Sequence.LastWith (fun tree => tree.GroupAt path) (fun tree => ¬ tree.Covers path) trees)
  name_iff : ∀ path name, name ∈ merged.namesAt path ↔
    ∃ tree ∈ uncovered trees path, name ∈ tree.namesAt path
  type_eq : ∀ path, (merged.attributesAt path).type =
    Sequence.lastSome? (fun tree => (tree.attributesAt path).type) (uncovered trees path)
  description_eq : ∀ path, (merged.attributesAt path).description =
    Sequence.lastSome? (fun tree => (tree.attributesAt path).description) (uncovered trees path)
  extensions_eq : ∀ path, (merged.attributesAt path).extensions =
    Sequence.lastSome? (fun tree => (tree.attributesAt path).extensions) (uncovered trees path)
  metadata_eq : ∀ path key, Entries.get? (merged.attributesAt path).metadata key =
    Sequence.lastSome? (fun tree => Entries.get? (Entries.ofPairs (tree.attributesAt path).metadata)
      key) (uncovered trees path)

theorem empty_isMergeOf_nil : empty.IsMergeOf [] := by
  -- The empty tree has its root and nothing below.
  have hroot : empty.at? [] = some (.group {} []) := rfl
  have hbelow : ∀ path, path ≠ [] → empty.at? path = none := by
    intro path hpath
    rcases List.exists_cons_of_ne_nil hpath with ⟨name, rest, rfl⟩
    simp [at?, root, empty, Node.follow]
  have hnode : ∀ path, Node.entriesOf (empty.at? path) = [] ∧
      Node.attributesOf (empty.at? path) = {} := by
    intro path
    by_cases hpath : path = []
    · simp [hpath, hroot]
    · simp [hbelow path hpath]
  constructor
  case token_iff =>
    intro path t
    have hno : empty.at? path ≠ some (.token t) := by
      by_cases hpath : path = []
      · simp [hpath, hroot]
      · simp [hbelow path hpath]
    simp [hno, Sequence.not_lastWith_nil]
  case group_iff =>
    intro path hpath
    have hnone : Node.follow (some empty.root) path = none := hbelow path hpath
    simp [Node.GroupAt, hnone, Sequence.not_lastWith_nil]
  case name_iff =>
    intro path name
    simp [namesAt, (hnode path).1, Entries.keys, uncovered]
  case type_eq =>
    intro path
    simp [attributesAt, (hnode path).2, uncovered, Sequence.lastSome?]
  case description_eq =>
    intro path
    simp [attributesAt, (hnode path).2, uncovered, Sequence.lastSome?]
  case extensions_eq =>
    intro path
    simp [attributesAt, (hnode path).2, uncovered, Sequence.lastSome?]
  case metadata_eq =>
    intro path key
    simp [attributesAt, (hnode path).2, uncovered, Sequence.lastSome?]

/-- An attribute that the upper tree has wins; under a covering tree nothing is left of it. What is
read of the merged attributes and of those of the trees need not be the same. -/
theorem read_attributesAt_merge {α : Type} {read readTree : Attributes → Option α}
    (hempty : read {} = none)
    (hoverlay : ∀ lower upper, read (Attributes.overlay lower upper) =
      (readTree upper).or (read lower))
    (hupper : upper.EachGroup List.Nodup)
    (h : read (merged.attributesAt path) =
      Sequence.lastSome? (fun tree => readTree (tree.attributesAt path)) (uncovered trees path)) :
    read ((merged.merge upper).attributesAt path) =
      Sequence.lastSome? (fun tree => readTree (tree.attributesAt path))
        (uncovered (trees ++ [upper]) path) := by
  rw [attributesAt_merge hupper, uncovered_append_singleton]
  -- A covering tree starts the list of what is left over again.
  by_cases hcovers : upper.Covers path
  · simp only [if_pos hcovers, hempty, Sequence.lastSome?, List.filterMap_nil, List.getLast?_nil]
  · simp only [if_neg hcovers, hoverlay, h, Sequence.lastSome?_append_singleton]

/-- One more tree on top. -/
theorem IsMergeOf.merge (h : merged.IsMergeOf trees) (hupper : upper.EachGroup List.Nodup) :
    (merged.merge upper).IsMergeOf (trees ++ [upper]) := by
  constructor
  case token_iff =>
    intro path t
    calc
      (merged.merge upper).at? path = some (.token t)
          ↔ upper.at? path = some (.token t) ∨
              (upper.at? path = none ∧ ¬ upper.TokenAbove path) ∧
                merged.at? path = some (.token t) := at?_merge_eq_token_iff hupper
      _ ↔ _ := by rw [h.token_iff path t, Sequence.lastWith_append_singleton_iff]
  case group_iff =>
    intro path hpath
    calc
      (merged.merge upper).GroupAt path
          ↔ upper.GroupAt path ∨ ¬ upper.Covers path ∧ merged.GroupAt path :=
            groupAt_merge_iff hupper
      _ ↔ _ := by rw [h.group_iff path hpath, Sequence.lastWith_append_singleton_iff]
  case name_iff =>
    intro path name
    rw [mem_namesAt_merge_iff hupper, h.name_iff, uncovered_append_singleton]
    by_cases hcovers : upper.Covers path
    · simp [hcovers]
    · simp [hcovers, or_and_right, exists_or, or_comm]
  -- The kinds of attributes differ in what is read of them only.
  case type_eq =>
    intro path
    have hoverlay : ∀ lower upper : Attributes,
        (lower.overlay upper).type = upper.type.or lower.type := by
      intro lower upper
      simp [Attributes.overlay]
    exact read_attributesAt_merge rfl hoverlay hupper (h.type_eq path)
  case description_eq =>
    intro path
    have hoverlay : ∀ lower upper : Attributes,
        (lower.overlay upper).description = upper.description.or lower.description := by
      intro lower upper
      simp [Attributes.overlay]
    exact read_attributesAt_merge rfl hoverlay hupper (h.description_eq path)
  case extensions_eq =>
    intro path
    have hoverlay : ∀ lower upper : Attributes,
        (lower.overlay upper).extensions = upper.extensions.or lower.extensions := by
      intro lower upper
      simp [Attributes.overlay]
    exact read_attributesAt_merge rfl hoverlay hupper (h.extensions_eq path)
  case metadata_eq =>
    intro path key
    have hempty : Entries.get? (Attributes.metadata {}) key = none := rfl
    have hoverlay : ∀ lower upper : Attributes,
        Entries.get? (lower.overlay upper).metadata key =
          (Entries.get? (Entries.ofPairs upper.metadata) key).or
            (Entries.get? lower.metadata key) := by
      intro lower upper
      exact Entries.get?_extend lower.metadata upper.metadata key
    have hbelow := h.metadata_eq path key
    exact @read_attributesAt_merge _ _ _ _ _
      (fun attributes => Entries.get? attributes.metadata key)
      (fun attributes => Entries.get? (Entries.ofPairs attributes.metadata) key) hempty hoverlay
      hupper hbelow

/-- A fold of merges is the merge of its trees. -/
theorem isMergeOf_foldl (h : ∀ tree ∈ trees, tree.EachGroup List.Nodup) :
    (trees.foldl Tree.merge .empty).IsMergeOf trees := by
  induction trees using List.reverseRecOn with
  | nil =>
      exact empty_isMergeOf_nil
  | append_singleton before last ih =>
      have hbefore : ∀ tree ∈ before, tree.EachGroup List.Nodup := by
        intro tree hmem
        exact h tree (by simp [hmem])
      have hlast : last.EachGroup List.Nodup := h last (by simp)
      simpa using (ih hbefore).merge hlast

/-- A merge of trees with proper names has proper names. -/
theorem properNames_foldl_merge (h : ∀ tree ∈ trees, tree.EachGroup Node.ProperNames) :
    (trees.foldl Tree.merge .empty).EachGroup Node.ProperNames := by
  refine List.foldlRecOn trees _ ⟨Node.properNames_nil, Node.eachEntry_nil⟩ ?_
  intro merged hmerged tree hmem
  rcases h tree hmem with ⟨hnames, hentries⟩
  exact Node.properNames_overlayEntries hmerged.1 hmerged.2 hnames.2 hentries

end Tree
end DesignTokens
