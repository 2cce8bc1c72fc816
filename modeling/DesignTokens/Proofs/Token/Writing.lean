import DesignTokens.Edit
import DesignTokens.Json.Printer
import DesignTokens.Proofs.Entries
import DesignTokens.Proofs.Token.Planting

/-!
# Documents written and read again

A tree is read back from the document that it is written to when the metadata of its groups are not
taken for anything else: they have reserved names without a meaning, and below the root none of them
is a `$value`. Documents are read into such trees, and merges and edits keep to them.
-/

namespace DesignTokens

theorem Except.exists_of_map_eq_ok {ε α β : Type} {x : Except ε α} {f : α → β} {b : β}
    (h : x.map f = .ok b) : ∃ a, x = .ok a ∧ f a = b := by
  cases x with
  | error e =>
      cases h
  | ok a =>
      exact ⟨a, rfl, Except.ok.inj h⟩

/-! ## Metadata -/

/-- A reserved key without a meaning for groups. -/
def IsMetadataKey (key : String) : Prop :=
  isReservedKey key = true ∧ key ≠ "$type" ∧ key ≠ "$description" ∧ key ≠ "$extensions"

/-- Below the root an object with a `$value` is a token. -/
def IsInnerKey (key : String) : Prop :=
  IsMetadataKey key ∧ key ≠ "$value"

namespace Attributes

/-- The metadata are named once each, by keys that are allowed. -/
structure Named (allowed : String → Prop) (attributes : Attributes) : Prop where
  nodup : (Entries.keys attributes.metadata).Nodup
  keys : ∀ key ∈ Entries.keys attributes.metadata, allowed key

variable {allowed : String → Prop} {attributes lower upper after : Attributes} {path key : String}
  {value : Json}

theorem named_empty : Named allowed {} :=
  ⟨List.nodup_nil, fun _ hmem => absurd hmem List.not_mem_nil⟩

/-- What may stand below the root may stand anywhere. -/
theorem Named.anywhere (h : attributes.Named IsInnerKey) : attributes.Named IsMetadataKey :=
  ⟨h.nodup, fun key hmem => (h.keys key hmem).1⟩

/-- Reading a key changes the metadata only by a key without a meaning of its own. -/
theorem metadata_withKey (hafter : attributes.withKey path key value = .ok after) :
    after.metadata = attributes.metadata ∨
      (key ≠ "$type" ∧ key ≠ "$description" ∧ key ≠ "$extensions") ∧
        after.metadata = Entries.put attributes.metadata key value := by
  unfold withKey at hafter
  split at hafter
  · rcases Except.exists_of_map_eq_ok hafter with ⟨text, -, rfl⟩
    exact Or.inl rfl
  · rename_i htype
    split at hafter
    · rcases Except.exists_of_map_eq_ok hafter with ⟨text, -, rfl⟩
      exact Or.inl rfl
    · rename_i hdescription
      split at hafter
      · rcases Except.exists_of_map_eq_ok hafter with ⟨fields, -, rfl⟩
        exact Or.inl rfl
      · rename_i hextensions
        rw [← Except.ok.inj hafter]
        exact Or.inr ⟨⟨htype, hdescription, hextensions⟩, rfl⟩

/-- Metadata extended by allowed keys have allowed keys. -/
theorem Named.extend {source : List (String × Json)} (h : attributes.Named allowed)
    (hsource : ∀ key ∈ Entries.keys source, allowed key)
    (hafter : after.metadata = Entries.extend attributes.metadata source) :
    after.Named allowed := by
  refine ⟨hafter ▸ Entries.nodup_keys_extend h.nodup source, ?_⟩
  intro key hmem
  rw [hafter] at hmem
  rcases List.mem_map.1 hmem with ⟨entry, hentry, rfl⟩
  rcases Entries.mem_extend hentry with hold | hnew
  · exact h.keys entry.1 (List.mem_map_of_mem hold)
  · exact hsource entry.1 (List.mem_map_of_mem hnew)

/-- Reading a reserved key keeps the metadata named as allowed. -/
theorem Named.withKey (h : attributes.Named allowed) (hreserved : isReservedKey key = true)
    (hkey : IsMetadataKey key → allowed key)
    (hafter : attributes.withKey path key value = .ok after) : after.Named allowed := by
  rcases metadata_withKey hafter with hsame | ⟨hplain, hput⟩
  · exact ⟨hsame ▸ h.nodup, hsame ▸ h.keys⟩
  · have hsource : ∀ other ∈ Entries.keys [(key, value)], allowed other := by
      intro other hmem
      rw [List.mem_singleton.1 hmem]
      exact hkey ⟨hreserved, hplain⟩
    exact h.extend hsource hput

/-- Metadata laid over others are named as allowed when both are. -/
theorem Named.overlay (hlower : lower.Named allowed) (hupper : upper.Named allowed) :
    (lower.overlay upper).Named allowed :=
  hlower.extend hupper.keys rfl

end Attributes

namespace Node

mutual

/-- The metadata of every group at and below a node are those of a group below the root. -/
def EachNamed : Node → Prop
  | .token _ => True
  | .group attributes children => attributes.Named IsInnerKey ∧ EachEntryNamed children

/-- The same for the groups at and below the entries of a group. -/
def EachEntryNamed : List (String × Node) → Prop
  | [] => True
  | (_, node) :: rest => EachNamed node ∧ EachEntryNamed rest

end

@[simp] theorem eachNamed_token (token : Token) : EachNamed (.token token) := by
  simp [EachNamed]

@[simp] theorem eachNamed_group_iff {attributes : Attributes} {children : List (String × Node)} :
    EachNamed (.group attributes children) ↔
      attributes.Named IsInnerKey ∧ EachEntryNamed children := by
  simp [EachNamed]

@[simp] theorem eachEntryNamed_nil : EachEntryNamed [] := by
  simp [EachEntryNamed]

@[simp] theorem eachEntryNamed_cons_iff {name : String} {node : Node}
    {rest : List (String × Node)} :
    EachEntryNamed ((name, node) :: rest) ↔ EachNamed node ∧ EachEntryNamed rest := by
  simp [EachEntryNamed]

theorem eachEntryNamed_iff {entries : Entries Node} :
    EachEntryNamed entries ↔ ∀ entry ∈ entries, EachNamed entry.2 := by
  induction entries with
  | nil =>
      simp
  | cons entry rest ih =>
      rw [List.forall_mem_cons, ← ih]
      exact eachEntryNamed_cons_iff

/-- A named entry keeps the others named. -/
theorem EachEntryNamed.put {entries : Entries Node} {node : Node} (h : EachEntryNamed entries)
    (hnode : EachNamed node) (name : String) : EachEntryNamed (Entries.put entries name node) := by
  refine eachEntryNamed_iff.2 fun entry hmem => ?_
  rcases Entries.mem_put hmem with rfl | hold
  · exact hnode
  · exact eachEntryNamed_iff.1 h entry hold

theorem EachEntryNamed.get? {entries : Entries Node} {node : Node} {name : String}
    (h : EachEntryNamed entries) (hget : Entries.get? entries name = some node) : EachNamed node :=
  eachEntryNamed_iff.1 h (name, node) (Entries.mem_of_get? hget)

/-- What is anywhere below the root is named like the rest of what is there. -/
theorem EachEntryNamed.eachNamed_of_follow {node found : Node} {path : List String}
    (h : EachEntryNamed (entriesOf (some node))) (hpath : path ≠ [])
    (hfound : follow (some node) path = some found) : found.EachNamed := by
  induction path generalizing node with
  | nil =>
      exact absurd rfl hpath
  | cons first rest ih =>
      cases hget : Entries.get? (entriesOf (some node)) first with
      | none =>
          rw [follow, hget, follow_none] at hfound
          cases hfound
      | some child =>
          rw [follow, hget] at hfound
          have hchild : child.EachNamed := h.get? hget
          cases rest with
          -- The entry is reached, or the path goes on below it.
          | nil =>
              rwa [← Option.some.inj hfound]
          | cons second more =>
              refine ih ?_ (List.cons_ne_nil second more) hfound
              cases child with
              | token t =>
                  exact eachEntryNamed_nil
              | group attributes children =>
                  exact (eachNamed_group_iff.1 hchild).2

end Node

/-- Every part of the tree is told by its document. -/
structure Tree.Legible (tree : Tree) : Prop where
  names : tree.EachGroup Node.ProperNames
  attributes : tree.attributes.Named IsMetadataKey
  children : Node.EachEntryNamed tree.children

/-! ## Reading documents -/

mutual

/-- The groups of a node that is read are named. -/
theorem Node.eachNamed_ofJson {path : String} {value : Json} {node : Node}
    (h : Node.ofJson path value = .ok node) : node.EachNamed := by
  cases value with
  | object fields =>
      rw [Node.ofJson] at h
      split at h
      · rcases Except.exists_of_map_eq_ok h with ⟨token, -, rfl⟩
        exact Node.eachNamed_token token
      · rename_i hvalue
        rcases Except.exists_of_map_eq_ok h with ⟨tree, htree, rfl⟩
        -- Without a `$value` all reserved keys of the object may stand below the root.
        have hinner : ∀ field ∈ fields, IsMetadataKey field.1 → IsInnerKey field.1 := by
          intro field hmem hkey
          refine ⟨hkey, fun heq => hvalue ?_⟩
          exact Entries.mem_keys_iff.1 (heq ▸ List.mem_map_of_mem hmem)
        exact Node.eachNamed_group_iff.2 (Tree.named_addFields Attributes.named_empty
          Node.eachEntryNamed_nil hinner htree)
  | null =>
      cases h
      exact Node.eachNamed_token _
  | bool b =>
      cases h
      exact Node.eachNamed_token _
  | number n =>
      cases h
      exact Node.eachNamed_token _
  | string text =>
      cases h
      exact Node.eachNamed_token _
  | array items =>
      cases h
      exact Node.eachNamed_token _

/-- The groups of a tree are named when those of the added fields are. -/
theorem Tree.named_addFields {allowed : String → Prop} {path : String} {tree after : Tree}
    {fields : List (String × Json)} (hattributes : tree.attributes.Named allowed)
    (hchildren : Node.EachEntryNamed tree.children)
    (hfields : ∀ field ∈ fields, IsMetadataKey field.1 → allowed field.1)
    (h : Tree.addFields path tree fields = .ok after) :
    after.attributes.Named allowed ∧ Node.EachEntryNamed after.children := by
  cases fields with
  | nil =>
      rw [Tree.addFields] at h
      cases h
      exact ⟨hattributes, hchildren⟩
  | cons field rest =>
      rcases field with ⟨key, value⟩
      rcases List.forall_mem_cons.1 hfields with ⟨hkey, hrest⟩
      rw [Tree.addFields] at h
      -- A field is an attribute of the group or one of its entries.
      split at h
      · rename_i hreserved
        split at h
        · rename_i attributes hwith
          have hnamed := hattributes.withKey hreserved hkey hwith
          exact @Tree.named_addFields _ _ { tree with attributes := attributes } _ _ hnamed
            hchildren hrest h
        · cases h
      · split at h
        · split at h
          · rename_i node hnode
            have hput := hchildren.put (Node.eachNamed_ofJson hnode) key
            exact @Tree.named_addFields _ _
              { tree with children := Entries.put tree.children key node } _ _ hattributes hput
              hrest h
          · cases h
        · cases h

end

theorem Tree.legible_ofJson {value : Json} {tree : Tree} (h : Tree.ofJson value = .ok tree) :
    tree.Legible := by
  cases value with
  | object fields =>
      have hnamed := Tree.named_addFields Attributes.named_empty Node.eachEntryNamed_nil
        (fun _ _ hkey => hkey) h
      exact ⟨Tree.properNames_ofJson h, hnamed.1, hnamed.2⟩
  | null =>
      cases h
  | bool b =>
      cases h
  | number n =>
      cases h
  | string text =>
      cases h
  | array items =>
      cases h

/-! ## Merging and editing -/

namespace Node

theorem named_attributesOf {node : Option Node} (h : ∀ below, node = some below → below.EachNamed) :
    (attributesOf node).Named IsInnerKey ∧ EachEntryNamed (entriesOf node) := by
  cases node with
  | none =>
      exact ⟨Attributes.named_empty, eachEntryNamed_nil⟩
  | some below =>
      cases below with
      | token t =>
          exact ⟨Attributes.named_empty, eachEntryNamed_nil⟩
      | group attributes children =>
          exact eachNamed_group_iff.1 (h _ rfl)

mutual

/-- A named node laid over another is named. -/
theorem eachNamed_overlay {lower : Option Node} {upper : Node}
    (hlower : ∀ below, lower = some below → below.EachNamed) (hupper : upper.EachNamed) :
    (overlay lower upper).EachNamed := by
  cases upper with
  | token t =>
      simp
  | group attributes children =>
      rcases eachNamed_group_iff.1 hupper with ⟨hattributes, hchildren⟩
      rcases named_attributesOf hlower with ⟨hbelow, hentries⟩
      rw [overlay_group, eachNamed_group_iff]
      exact ⟨hbelow.overlay hattributes, eachEntryNamed_overlayEntries hentries hchildren⟩

/-- Named entries laid over others are named. -/
theorem eachEntryNamed_overlayEntries {lower : Entries Node} {upper : List (String × Node)}
    (hlower : EachEntryNamed lower) (hupper : EachEntryNamed upper) :
    EachEntryNamed (overlayEntries lower upper) := by
  cases upper with
  | nil =>
      simpa [overlayEntries] using hlower
  | cons entry rest =>
      rcases entry with ⟨name, node⟩
      rcases eachEntryNamed_cons_iff.1 hupper with ⟨hnode, hrest⟩
      have hover : (overlay (Entries.get? lower name) node).EachNamed :=
        eachNamed_overlay (fun below hbelow => hlower.get? hbelow) hnode
      rw [overlayEntries]
      exact eachEntryNamed_overlayEntries (hlower.put hover name) hrest

end

end Node

namespace Tree

variable {tree lower upper : Tree}

/-- The merge of two legible trees is legible. -/
theorem Legible.merge (hlower : lower.Legible) (hupper : upper.Legible) :
    (lower.merge upper).Legible where
  names := Node.properNames_overlayEntries hlower.names.1 hlower.names.2 hupper.names.1.2
    hupper.names.2
  attributes := hlower.attributes.overlay hupper.attributes
  children := Node.eachEntryNamed_overlayEntries hlower.children hupper.children

theorem Legible.withName (h : tree.Legible) (name : String) : (tree.withName name).Legible where
  names := h.names
  attributes := by
    have hkey : IsMetadataKey "$name" := ⟨by decide, by decide, by decide, by decide⟩
    have hsource : ∀ key ∈ Entries.keys [("$name", Json.string name)], IsMetadataKey key := by
      intro key hmem
      exact List.mem_singleton.1 hmem ▸ hkey
    exact h.attributes.extend hsource rfl
  children := h.children

structure LegibleEntries (entries : Entries Node) : Prop where
  names : Node.ProperNames (Entries.keys entries)
  below : Node.EachEntry Node.ProperNames entries
  named : Node.EachEntryNamed entries

/-- What is no group has no entries, and none that is not legible. -/
theorem LegibleEntries.child {entries : Entries Node} (h : LegibleEntries entries) (name : String) :
    (Node.attributesOf (Entries.get? entries name)).Named IsInnerKey ∧
      LegibleEntries (Node.entriesOf (Entries.get? entries name)) := by
  have hnames := @Node.properNames_entriesOf (Entries.get? entries name) fun _ hget =>
    h.below.get? hget
  have hnamed := @Node.named_attributesOf (Entries.get? entries name) fun _ hget =>
    h.named.get? hget
  exact ⟨hnamed.1, hnames.1, hnames.2, hnamed.2⟩

/-- A token put under a valid name keeps entries legible. -/
theorem LegibleEntries.put_token {entries : Entries Node} {name : String}
    (h : LegibleEntries entries) (hname : Path.ValidName name) (token : Token) :
    LegibleEntries (Entries.put entries name (.token token)) :=
  ⟨h.names.put hname _, h.below.put (Node.eachGroup_token token) name,
    h.named.put (Node.eachNamed_token token) name⟩

/-- A group put under a valid name keeps entries legible, if it is legible itself. -/
theorem LegibleEntries.put_group {entries below : Entries Node} {name : String}
    {attributes : Attributes} (h : LegibleEntries entries) (hname : Path.ValidName name)
    (hattributes : attributes.Named IsInnerKey) (hbelow : LegibleEntries below) :
    LegibleEntries (Entries.put entries name (.group attributes below)) :=
  ⟨h.names.put hname _, h.below.put (Node.eachGroup_group_iff.2 ⟨hbelow.names, hbelow.below⟩) name,
    h.named.put (Node.eachNamed_group_iff.2 ⟨hattributes, hbelow.named⟩) name⟩

/-- Planting a token along valid names keeps entries legible. -/
theorem LegibleEntries.plant {segments : List String} {node : Option Node}
    (h : LegibleEntries (Node.entriesOf node)) (hsegments : segments ≠ [])
    (hvalid : ∀ name ∈ segments, Path.ValidName name) (token : Token) :
    LegibleEntries (Node.entriesOf (some (Node.plant (.token token) segments node))) := by
  induction segments generalizing node with
  | nil =>
      exact absurd rfl hsegments
  | cons name rest ih =>
      rcases List.forall_mem_cons.1 hvalid with ⟨hname, hothers⟩
      by_cases hrest : rest = []
      · subst hrest
        exact h.put_token hname token
      · rcases h.child name with ⟨hattributes, hbelow⟩
        rw [Node.plant_cons, Node.plant_eq_group hrest]
        exact h.put_group hname hattributes (ih hbelow hrest hothers)

/-- Setting a token keeps a tree legible, whether or not it is accepted. -/
theorem Legible.stateAfter_setToken (h : tree.Legible) (path : String) (token : Token) :
    ((setToken path token).stateAfter tree).Legible := by
  by_cases hsettable : tree.Settable path
  · have hentries : LegibleEntries (Node.entriesOf (some tree.root)) :=
      ⟨h.names.1, h.names.2, h.children⟩
    have hafter := hentries.plant (mt Path.segments_eq_nil_iff.1 hsettable.nonempty)
      hsettable.valid token
    rw [Edit.stateAfter_of_ok (run_setToken_eq_ok hsettable token)]
    exact ⟨⟨hafter.names, hafter.below⟩, h.attributes, hafter.named⟩
  · rcases run_setToken_eq_error hsettable token with ⟨e, hrun⟩
    rw [Edit.stateAfter_of_error hrun]
    exact h

end Tree

/-! ## Writing and reading -/

theorem Token.ofFields_fields (path : String) (token : Token) :
    Token.ofFields path token.fields = .ok token := by
  rcases token with ⟨value, type, description, extensions⟩
  cases type <;> cases description <;> cases extensions <;> rfl

namespace Tree

variable {tree : Tree} {path : String}

/-- Fields are added one after the other. -/
theorem addFields_append (path : String) (tree : Tree) (front back : List (String × Json)) :
    addFields path tree (front ++ back) =
      (addFields path tree front).bind fun after => addFields path after back := by
  induction front generalizing tree with
  | nil =>
      simp [addFields, Except.bind]
  | cons field rest ih =>
      rcases field with ⟨key, value⟩
      rw [List.cons_append, addFields, addFields]
      split
      · split
        · exact ih _
        · rfl
      · split
        · split
          · exact ih _
          · rfl
        · rfl

/-- Metadata keys are put among the attributes of the tree. -/
theorem addFields_metadata {more : List (String × Json)}
    (hkeys : ∀ key ∈ Entries.keys more, IsMetadataKey key) :
    addFields path tree more = .ok { tree with
      attributes :=
        { tree.attributes with metadata := Entries.extend tree.attributes.metadata more } } := by
  induction more generalizing tree with
  | nil =>
      simp [addFields, Entries.extend]
  | cons field rest ih =>
      rcases field with ⟨key, value⟩
      rcases List.forall_mem_cons.1 hkeys with
        ⟨⟨hreserved, htype, hdescription, hextensions⟩, hrest⟩
      have hkey : tree.attributes.withKey path key value =
          .ok { tree.attributes with
            metadata := Entries.put tree.attributes.metadata key value } := by
        simp only at htype hdescription hextensions
        simp [Attributes.withKey, htype, hdescription, hextensions]
      rw [addFields, if_pos hreserved, hkey]
      exact ih hrest

/-- The attributes of a group are read back from its fields. -/
theorem addFields_attributes {attributes : Attributes} (h : attributes.Named IsMetadataKey) :
    addFields path {} attributes.fields = .ok { attributes := attributes } := by
  rcases attributes with ⟨type, description, extensions, metadata⟩
  have hput : Entries.extend [] metadata = metadata := Entries.ofPairs_eq_self h.nodup
  have hmetadata := @addFields_metadata {} path metadata h.keys
  rw [hput] at hmetadata
  -- The metadata come first, and then each attribute that is there.
  simp only [Attributes.fields, List.append_assoc]
  rw [addFields_append, hmetadata]
  cases type <;> cases description <;> cases extensions <;> rfl

end Tree

theorem Path.ValidName.isReservedKey_eq_false {name : String} (h : Path.ValidName name) :
    isReservedKey name = false := by
  unfold Path.ValidName Path.nameFault? at h
  split at h
  · cases h
  · split at h
    · cases h
    · rename_i hhead
      simpa [isReservedKey] using hhead

/-- The entries of a group are written under their names, in order. -/
theorem Node.keys_entriesToJson (children : List (String × Node)) :
    Entries.keys (Node.entriesToJson children) = Entries.keys children := by
  induction children with
  | nil =>
      simp [Node.entriesToJson, Entries.keys]
  | cons entry rest ih =>
      rcases entry with ⟨name, node⟩
      simpa [Node.entriesToJson, Entries.keys] using ih

/-- Nothing makes a token of the document of a group. -/
theorem Node.has_value_eq_false {attributes : Attributes} {children : List (String × Node)}
    (hattributes : attributes.Named IsInnerKey)
    (hnames : Node.ProperNames (Entries.keys children)) :
    Entries.has (attributes.fields ++ Node.entriesToJson children) "$value" = false := by
  rw [← Bool.not_eq_true, ← Entries.mem_keys_iff]
  intro hmem
  have hparts : "$value" ∈ Entries.keys attributes.fields ∨ "$value" ∈ Entries.keys children := by
    rw [← Node.keys_entriesToJson]
    simpa [Entries.keys] using hmem
  rcases hparts with hfield | hchild
  · have hmetadata : "$value" ∈ Entries.keys attributes.metadata := by
      rcases attributes with ⟨type, description, extensions, metadata⟩
      cases type <;> cases description <;> cases extensions <;>
        simpa [Attributes.fields, optionalField, Entries.keys] using hfield
    exact (hattributes.keys _ hmetadata).2 rfl
  · have hreserved := (hnames.2 _ hchild).isReservedKey_eq_false
    exact absurd hreserved (by decide)

mutual

/-- A node that is proper and named is read back as it was written. -/
theorem Node.ofJson_toJson {node : Node} (hnames : node.EachGroup Node.ProperNames)
    (hnamed : node.EachNamed) (path : String) : Node.ofJson path node.toJson = .ok node := by
  cases node with
  | token t =>
      have hvalue : Entries.has t.fields "$value" = true := by
        simp [Token.fields, Entries.has]
      rw [Node.toJson, Node.ofJson, if_pos hvalue, Token.ofFields_fields]
      rfl
  | group attributes children =>
      rcases Node.eachGroup_group_iff.1 hnames with ⟨hproper, hentries⟩
      rcases Node.eachNamed_group_iff.1 hnamed with ⟨hattributes, hchildren⟩
      have hread := Tree.addFields_entriesToJson path { attributes := attributes } hproper hentries
        hchildren
      rw [Node.toJson, Node.ofJson, Node.has_value_eq_false hattributes hproper,
        Tree.addFields_append, Tree.addFields_attributes hattributes.anywhere]
      simp [Except.bind, Except.map, hread]

/-- The entries of a tree are read back as they were written, after those that are there. -/
theorem Tree.addFields_entriesToJson (path : String) (tree : Tree)
    {children : List (String × Node)}
    (hproper : Node.ProperNames (Entries.keys (tree.children ++ children)))
    (hentries : Node.EachEntry Node.ProperNames children)
    (hchildren : Node.EachEntryNamed children) :
    Tree.addFields path tree (Node.entriesToJson children) =
      .ok { tree with children := tree.children ++ children } := by
  cases children with
  | nil =>
      simp [Node.entriesToJson, Tree.addFields]
  | cons entry rest =>
      rcases entry with ⟨name, node⟩
      rcases Node.eachEntry_cons_iff.1 hentries with ⟨hnode, hrest⟩
      rcases Node.eachEntryNamed_cons_iff.1 hchildren with ⟨hnamed, hothers⟩
      have hnames : Entries.keys (tree.children ++ (name, node) :: rest) =
          Entries.keys tree.children ++ name :: Entries.keys rest := by simp [Entries.keys]
      -- The name is valid and new, so that its entry goes to the end.
      have hname : Path.ValidName name := hproper.2 name (by simp [hnames])
      have hnew : name ∉ Entries.keys tree.children := by
        intro hmem
        rw [hnames] at hproper
        exact (List.nodup_append.1 hproper.1).2.2 name hmem name (List.mem_cons_self ..) rfl
      have hput := Entries.put_eq_append hnew node
      have hmore : tree.children ++ [(name, node)] ++ rest =
          tree.children ++ (name, node) :: rest := by
        simp
      have hafter : Node.ProperNames
          (Entries.keys (tree.children ++ [(name, node)] ++ rest)) := by
        rw [hmore]
        exact hproper
      have hread := Tree.addFields_entriesToJson path
        { tree with children := tree.children ++ [(name, node)] } hafter hrest hothers
      rw [Node.entriesToJson, Tree.addFields, hname.isReservedKey_eq_false,
        Path.validateName_eq_ok_iff.2 hname, Node.ofJson_toJson hnode hnamed]
      simpa [hput, hmore] using hread

end

namespace Tree

variable {tree : Tree}

/-- A legible tree is read back from its document. -/
theorem Legible.ofJson_toJson (h : tree.Legible) : ofJson tree.toJson = .ok tree := by
  have hentries := Tree.addFields_entriesToJson "" { attributes := tree.attributes } h.names.1
    h.names.2 h.children
  rw [toJson, ofJson, addFields_append, addFields_attributes h.attributes]
  simpa [Except.bind] using hentries

/-- The trees that documents are read into, and that merges and edits make of such trees. An edit
counts whether the token is set or refused. -/
inductive Obtained : Tree → Prop where
  | document {value : Json} {tree : Tree} : ofJson value = .ok tree → Obtained tree
  | merge {lower upper : Tree} : Obtained lower → Obtained upper → Obtained (lower.merge upper)
  | setToken {tree : Tree} (path : String) (token : Token) :
      Obtained tree → Obtained ((Tree.setToken path token).stateAfter tree)
  | withName {tree : Tree} (name : String) : Obtained tree → Obtained (tree.withName name)

/-- Every tree that comes from documents is legible. -/
theorem Obtained.legible (h : tree.Obtained) : tree.Legible := by
  induction h with
  | document hread =>
      exact legible_ofJson hread
  | merge _ _ hlower hupper =>
      exact hlower.merge hupper
  | setToken path token _ ih =>
      exact ih.stateAfter_setToken path token
  | withName name _ ih =>
      exact ih.withName name

/-- A tree that comes from documents by merges and edits is read back from its own document, with
all entries and metadata in their order, so that it is written again to the same text. -/
theorem ofJson_toJson_eq_ok (h : tree.Obtained) :
    ofJson tree.toJson = .ok tree ∧
      ∀ again, ofJson tree.toJson = .ok again →
        again.toJson.compact = tree.toJson.compact ∧ again.toJson.pretty = tree.toJson.pretty := by
  have hread := h.legible.ofJson_toJson
  refine ⟨hread, fun again hagain => ?_⟩
  have hsame : again = tree := Except.ok.inj (hagain.symm.trans hread)
  rw [hsame]
  exact ⟨rfl, rfl⟩

/-- A `$value` at the root, a short token, and a token whose value has reserved keys of its own. -/
def paletteDocument : Json :=
  .object [("$value", .string "note"), ("$themes", .array [.string "light"]),
    ("$type", .string "color"),
    ("palette", .object [("$order", .bool true), ("blue", .string "#0066ff"),
      ("shadow", .object [("$value", .object [("$type", .string "inner"), ("blur", .null)])])])]

def accentDocument : Json :=
  .object [("$modes", .null), ("$themes", .array []),
    ("palette", .object [("$locked", .bool true), ("$order", .bool false),
      ("red", .object [("$value", .string "#f00"), ("$description", .string "Alarm")])])]

theorem ofJson_toJson_eq_ok_palette :
    ∃ lower upper, ofJson paletteDocument = .ok lower ∧ ofJson accentDocument = .ok upper ∧
      ofJson ((((setToken "palette.dark.red" { value := .null }).stateAfter
          (lower.merge upper)).withName "All").toJson) =
        .ok (((setToken "palette.dark.red" { value := .null }).stateAfter
          (lower.merge upper)).withName "All") := by
  refine ⟨_, _, rfl, rfl, ?_⟩
  have hmerged := (@Obtained.document paletteDocument _ rfl).merge
    (@Obtained.document accentDocument _ rfl)
  exact (ofJson_toJson_eq_ok ((hmerged.setToken _ _).withName "All")).1

end Tree
end DesignTokens
