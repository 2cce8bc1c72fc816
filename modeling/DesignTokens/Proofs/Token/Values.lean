import DesignTokens.Proofs.Json.Proper
import DesignTokens.Proofs.Token.Writing

/-!
# JSON values in trees

A tree keeps parts of its document as they are: the values of tokens, extensions and the metadata of
groups. When all of them are proper and every part of the tree is told by its document, the document
is proper as well, and only such trees are read from proper documents.
-/

namespace DesignTokens

structure Token.Proper (token : Token) : Prop where
  value : token.value.Proper
  extensions : ∀ fields ∈ token.extensions, Json.Proper (.object fields)

structure Attributes.Proper (attributes : Attributes) : Prop where
  metadata : ∀ entry ∈ attributes.metadata, Json.Proper entry.2
  extensions : ∀ fields ∈ attributes.extensions, Json.Proper (.object fields)

theorem Token.proper_empty : Token.Proper {} :=
  ⟨Json.proper_null, nofun⟩

theorem Attributes.proper_empty : Attributes.Proper {} :=
  ⟨nofun, nofun⟩

namespace Node

mutual

/-- The JSON values at and below a node are those of a document. -/
def EachProper : Node → Prop
  | .token t => t.Proper
  | .group attributes children => attributes.Proper ∧ EachEntryProper children

/-- The JSON values at and below the entries of a group are those of a document. -/
def EachEntryProper : List (String × Node) → Prop
  | [] => True
  | (_, node) :: rest => EachProper node ∧ EachEntryProper rest

end

@[simp] theorem eachProper_token_iff {token : Token} :
    EachProper (.token token) ↔ token.Proper := by
  simp [EachProper]

@[simp] theorem eachProper_group_iff {attributes : Attributes} {children : List (String × Node)} :
    EachProper (.group attributes children) ↔ attributes.Proper ∧ EachEntryProper children := by
  simp [EachProper]

theorem eachEntryProper_iff {entries : Entries Node} :
    EachEntryProper entries ↔ ∀ entry ∈ entries, EachProper entry.2 := by
  induction entries with
  | nil =>
      simp [EachEntryProper]
  | cons entry rest ih =>
      rcases entry with ⟨name, node⟩
      rw [EachEntryProper, ih, List.forall_mem_cons]

/-- A proper entry keeps the others proper. -/
theorem EachEntryProper.put {entries : Entries Node} {node : Node} (h : EachEntryProper entries)
    (hnode : EachProper node) (name : String) :
    EachEntryProper (Entries.put entries name node) := by
  refine eachEntryProper_iff.2 fun entry hmem => ?_
  rcases Entries.mem_put hmem with rfl | hold
  · exact hnode
  · exact eachEntryProper_iff.1 h entry hold

end Node

/-! ## Writing -/

/-- The fields that tokens and groups have in common. -/
def commonFields (type description : Option String) (extensions : Option (List (String × Json))) :
    List (String × Json) :=
  optionalField "$type" .string type ++ optionalField "$description" .string description ++
    optionalField "$extensions" .object extensions

theorem proper_optionalField {α : Type} {key : String} {write : α → Json} {a : Option α}
    (h : ∀ b ∈ a, (write b).Proper) : ∀ field ∈ optionalField key write a, field.2.Proper := by
  cases a with
  | none =>
      exact List.forall_mem_nil _
  | some b =>
      exact List.forall_mem_singleton.2 (h b rfl)

section

variable {type description : Option String} {extensions : Option (List (String × Json))}

/-- The fields that tokens and groups share are written once each, in a fixed order. -/
theorem keys_commonFields_sublist :
    (Entries.keys (commonFields type description extensions)).Sublist
      ["$type", "$description", "$extensions"] := by
  cases type <;> cases description <;> cases extensions <;>
    simp [commonFields, optionalField, Entries.keys]

/-- The shared fields have proper values when the extensions do. -/
theorem proper_commonFields (h : ∀ fields ∈ extensions, Json.Proper (.object fields)) :
    ∀ field ∈ commonFields type description extensions, field.2.Proper := by
  have htexts : ∀ {key : String} {text : Option String},
      ∀ field ∈ optionalField key .string text, field.2.Proper :=
    proper_optionalField fun text _ => Json.proper_string text
  exact List.forall_mem_append.2
    ⟨List.forall_mem_append.2 ⟨htexts, htexts⟩, proper_optionalField h⟩

end

theorem Token.Proper.fields {token : Token} (h : token.Proper) :
    Json.Proper (.object token.fields) := by
  have hfields : token.fields =
      ("$value", token.value) :: commonFields token.type token.description token.extensions := by
    simp [Token.fields, commonFields]
  have hkeys : (Entries.keys token.fields).Sublist
      ["$value", "$type", "$description", "$extensions"] := by
    rw [hfields]
    exact keys_commonFields_sublist.cons_cons "$value"
  refine Json.proper_object_iff.2 ⟨hkeys.nodup (by decide), ?_⟩
  rw [hfields]
  exact List.forall_mem_cons.2 ⟨h.value, proper_commonFields h.extensions⟩

namespace Attributes

variable {attributes : Attributes}

/-- The fields of a group are its metadata and then those that it shares with tokens. -/
theorem fields_eq (attributes : Attributes) :
    attributes.fields = attributes.metadata ++
      commonFields attributes.type attributes.description attributes.extensions := by
  simp [fields, commonFields]

theorem keys_fields (attributes : Attributes) :
    Entries.keys attributes.fields = Entries.keys attributes.metadata ++
      Entries.keys (commonFields attributes.type attributes.description attributes.extensions) := by
  simp [fields_eq, Entries.keys]

/-- The fields of a group have reserved names. -/
theorem Named.isReservedKey_of_mem (h : attributes.Named IsMetadataKey) {key : String}
    (hkey : key ∈ Entries.keys attributes.fields) : isReservedKey key = true := by
  rw [keys_fields, List.mem_append] at hkey
  rcases hkey with hmetadata | hcommon
  · exact (h.keys key hmetadata).1
  · have hall : ∀ key ∈ ["$type", "$description", "$extensions"], isReservedKey key = true := by
      decide
    exact hall key (keys_commonFields_sublist.subset hcommon)

theorem Named.nodup_keys_fields (h : attributes.Named IsMetadataKey) :
    (Entries.keys attributes.fields).Nodup := by
  rw [keys_fields]
  refine List.nodup_append.2 ⟨h.nodup, keys_commonFields_sublist.nodup (by decide), ?_⟩
  rintro key hmetadata other hcommon rfl
  rcases h.keys key hmetadata with ⟨-, htype, hdescription, hextensions⟩
  have hmem := keys_commonFields_sublist.subset hcommon
  simp [htype, hdescription, hextensions] at hmem

theorem Proper.fields (h : attributes.Proper) : ∀ field ∈ attributes.fields, field.2.Proper := by
  rw [fields_eq]
  exact List.forall_mem_append.2 ⟨h.metadata, proper_commonFields h.extensions⟩

/-- The keys of a group's attributes are not those of its entries. -/
theorem Proper.group (h : attributes.Proper) (hnamed : attributes.Named IsMetadataKey)
    {children : List (String × Node)} (hnames : Node.ProperNames (Entries.keys children))
    (hchildren : ∀ field ∈ Node.entriesToJson children, field.2.Proper) :
    Json.Proper (.object (attributes.fields ++ Node.entriesToJson children)) := by
  have hkeys : Entries.keys (attributes.fields ++ Node.entriesToJson children) =
      Entries.keys attributes.fields ++ Entries.keys children := by
    rw [← Node.keys_entriesToJson]
    simp [Entries.keys]
  refine Json.proper_object_iff.2 ⟨?_, List.forall_mem_append.2 ⟨h.fields, hchildren⟩⟩
  rw [hkeys]
  refine List.nodup_append.2 ⟨hnamed.nodup_keys_fields, hnames.1, ?_⟩
  rintro key hattribute name hname rfl
  have hplain := (hnames.2 key hname).isReservedKey_eq_false
  rw [hnamed.isReservedKey_of_mem hattribute] at hplain
  cases hplain

end Attributes

mutual

/-- A node that is proper and named is written as a proper value. -/
theorem Node.EachProper.toJson {node : Node} (h : node.EachProper)
    (hnames : node.EachGroup Node.ProperNames) (hnamed : node.EachNamed) : node.toJson.Proper := by
  cases node with
  | token t =>
      rw [Node.toJson]
      exact (Node.eachProper_token_iff.1 h).fields
  | group attributes children =>
      rcases Node.eachProper_group_iff.1 h with ⟨hattributes, hchildren⟩
      rcases Node.eachGroup_group_iff.1 hnames with ⟨hkeys, hentries⟩
      rcases Node.eachNamed_group_iff.1 hnamed with ⟨hmetadata, hbelow⟩
      rw [Node.toJson]
      exact hattributes.group hmetadata.anywhere hkeys (hchildren.entriesToJson hentries hbelow)

theorem Node.EachEntryProper.entriesToJson {children : List (String × Node)}
    (h : Node.EachEntryProper children) (hnames : Node.EachEntry Node.ProperNames children)
    (hnamed : Node.EachEntryNamed children) :
    ∀ field ∈ Node.entriesToJson children, field.2.Proper := by
  cases children with
  | nil =>
      simp [Node.entriesToJson]
  | cons entry rest =>
      rcases entry with ⟨name, node⟩
      rcases h with ⟨hnode, hrest⟩
      rcases Node.eachEntry_cons_iff.1 hnames with ⟨hgroups, hothers⟩
      rcases Node.eachEntryNamed_cons_iff.1 hnamed with ⟨hmetadata, hmore⟩
      rw [Node.entriesToJson]
      exact List.forall_mem_cons.2
        ⟨hnode.toJson hgroups hmetadata, hrest.entriesToJson hothers hmore⟩

end

structure Tree.Proper (tree : Tree) : Prop where
  attributes : tree.attributes.Proper
  children : Node.EachEntryProper tree.children

theorem Tree.proper_empty : Tree.Proper {} :=
  ⟨Attributes.proper_empty, trivial⟩

/-- A legible tree of proper values is written as a proper document. -/
theorem Tree.Legible.proper_toJson {tree : Tree} (h : tree.Legible) (hproper : tree.Proper) :
    tree.toJson.Proper :=
  hproper.attributes.group h.attributes h.names.1
    (hproper.children.entriesToJson h.names.2 h.children)

/-! ## Reading -/

/-- The extensions that are read from a proper value are proper. -/
theorem proper_of_fieldsAttribute {path key : String} {value : Json}
    {fields : List (String × Json)} (hvalue : value.Proper)
    (h : fieldsAttribute path key value = .ok fields) : Json.Proper (.object fields) := by
  unfold fieldsAttribute at h
  split at h
  · rw [← Except.ok.inj h]
    exact hvalue
  · cases h

/-- A key read into a token keeps it proper. -/
theorem Token.Proper.withKey {token after : Token} {path key : String} {value : Json}
    (h : token.Proper) (hvalue : value.Proper) (hafter : token.withKey path key value = .ok after) :
    after.Proper := by
  unfold Token.withKey at hafter
  split at hafter
  · cases hafter
    exact ⟨hvalue, h.extensions⟩
  · split at hafter
    · rcases Except.exists_of_map_eq_ok hafter with ⟨text, -, rfl⟩
      exact ⟨h.value, h.extensions⟩
    · split at hafter
      · rcases Except.exists_of_map_eq_ok hafter with ⟨text, -, rfl⟩
        exact ⟨h.value, h.extensions⟩
      · split at hafter
        · rcases Except.exists_of_map_eq_ok hafter with ⟨fields, hfields, rfl⟩
          refine ⟨h.value, fun found hfound => ?_⟩
          rw [← Option.some.inj hfound]
          exact proper_of_fieldsAttribute hvalue hfields
        · cases hafter
          exact h

/-- A key read into a group keeps it proper. -/
theorem Attributes.Proper.withKey {attributes after : Attributes} {path key : String} {value : Json}
    (h : attributes.Proper) (hvalue : value.Proper)
    (hafter : attributes.withKey path key value = .ok after) : after.Proper := by
  unfold Attributes.withKey at hafter
  split at hafter
  · rcases Except.exists_of_map_eq_ok hafter with ⟨text, -, rfl⟩
    exact ⟨h.metadata, h.extensions⟩
  · split at hafter
    · rcases Except.exists_of_map_eq_ok hafter with ⟨text, -, rfl⟩
      exact ⟨h.metadata, h.extensions⟩
    · split at hafter
      · rcases Except.exists_of_map_eq_ok hafter with ⟨fields, hfields, rfl⟩
        refine ⟨h.metadata, fun found hfound => ?_⟩
        rw [← Option.some.inj hfound]
        exact proper_of_fieldsAttribute hvalue hfields
      · cases hafter
        refine ⟨fun entry hentry => ?_, h.extensions⟩
        rcases Entries.mem_put hentry with rfl | hold
        · exact hvalue
        · exact h.metadata entry hold

/-- A token read from proper fields is proper. -/
theorem Token.proper_ofFields {path : String} {token : Token} {fields : List (String × Json)}
    (hfields : ∀ field ∈ fields, field.2.Proper) (h : Token.ofFields path fields = .ok token) :
    token.Proper := by
  -- The keys are taken one after another, over a token that is proper so far.
  have hmore : ∀ {start : Token}, start.Proper →
      fields.foldlM (fun token field => token.withKey path field.1 field.2) start = .ok token →
        token.Proper := by
    clear h
    induction fields with
    | nil =>
        intro start hstart hread
        exact Except.ok.inj hread ▸ hstart
    | cons field rest ih =>
        intro start hstart hread
        rcases List.forall_mem_cons.1 hfields with ⟨hfield, hrest⟩
        rw [List.foldlM_cons] at hread
        cases hnext : start.withKey path field.1 field.2 with
        | error e =>
            rw [hnext] at hread
            cases hread
        | ok next =>
            rw [hnext] at hread
            exact ih hrest (hstart.withKey hfield hnext) hread
  exact hmore Token.proper_empty h

mutual

/-- A node read from a proper value is proper. -/
theorem Node.eachProper_ofJson {path : String} {value : Json} {node : Node} (hvalue : value.Proper)
    (h : Node.ofJson path value = .ok node) : node.EachProper := by
  have hplain : Node.EachProper (.token { value := value }) :=
    Node.eachProper_token_iff.2 ⟨hvalue, nofun⟩
  cases value with
  | object fields =>
      have hfields := (Json.proper_object_iff.1 hvalue).2
      rw [Node.ofJson] at h
      split at h
      · rcases Except.exists_of_map_eq_ok h with ⟨token, htoken, rfl⟩
        exact Node.eachProper_token_iff.2 (Token.proper_ofFields hfields htoken)
      · rcases Except.exists_of_map_eq_ok h with ⟨tree, htree, rfl⟩
        have hproper := Tree.proper_addFields Tree.proper_empty hfields htree
        exact Node.eachProper_group_iff.2 ⟨hproper.attributes, hproper.children⟩
  | null =>
      cases h
      exact hplain
  | bool b =>
      cases h
      exact hplain
  | number n =>
      cases h
      exact hplain
  | string text =>
      cases h
      exact hplain
  | array items =>
      cases h
      exact hplain

/-- Proper fields that are added to a proper tree keep it so. -/
theorem Tree.proper_addFields {path : String} {tree after : Tree} {fields : List (String × Json)}
    (htree : tree.Proper) (hfields : ∀ field ∈ fields, field.2.Proper)
    (h : Tree.addFields path tree fields = .ok after) : after.Proper := by
  cases fields with
  | nil =>
      rw [Tree.addFields] at h
      exact Except.ok.inj h ▸ htree
  | cons field rest =>
      rcases field with ⟨key, value⟩
      rcases List.forall_mem_cons.1 hfields with ⟨hvalue, hrest⟩
      rw [Tree.addFields] at h
      -- A field is an attribute of the group or one of its entries.
      split at h
      · split at h
        · rename_i attributes hwith
          have hnext : Tree.Proper { tree with attributes := attributes } :=
            ⟨htree.attributes.withKey hvalue hwith, htree.children⟩
          exact Tree.proper_addFields hnext hrest h
        · cases h
      · split at h
        · split at h
          · rename_i node hnode
            have hnext : Tree.Proper { tree with children := Entries.put tree.children key node } :=
              ⟨htree.attributes, htree.children.put (Node.eachProper_ofJson hvalue hnode) key⟩
            exact Tree.proper_addFields hnext hrest h
          · cases h
        · cases h

end

/-- A tree read from a proper document is proper. -/
theorem Tree.proper_ofJson {value : Json} {tree : Tree} (hvalue : value.Proper)
    (h : Tree.ofJson value = .ok tree) : tree.Proper := by
  cases value with
  | object fields =>
      exact Tree.proper_addFields Tree.proper_empty (Json.proper_object_iff.1 hvalue).2 h
  | null =>
      cases h
  | bool b =>
      cases h
  | number n =>
      cases h
  | string text =>
      cases h
  | array items =>
      cases h

end DesignTokens
