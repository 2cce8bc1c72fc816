import DesignTokens.Project.Basic
import DesignTokens.Proofs.Json.Decoding
import DesignTokens.Proofs.Pipeline.Configurations
import DesignTokens.Proofs.Store.Documents

/-!
# Saving and loading projects

A project is loaded from the document that it is saved to. The document leaves out what is absent or
empty and what is read in its place is the same again; only a base font size that is not a finite
number has no document, and a group with metadata that mean something else where it stands is read
as something else.
-/

namespace DesignTokens

open Json.Decode

/-! ## Parts of pipelines -/

theorem Variable.ofJson_toJson (v : Variable) : ofJson v.toJson = .ok v := by
  simp [ofJson, toJson, record, field, Json.Decode.find?, list_ofTexts]

theorem Layer.ofJson_toJson (layer : Layer) : ofJson layer.toJson = .ok layer := by
  simp [ofJson, toJson, record, field, fieldOr, Json.Decode.find?, list_ofTexts, int32_toInt]

namespace Assignment

theorem nodup_keys_pairs (a : Assignment) : (Entries.keys a.pairs).Nodup := by
  rw [pairs, Entries.keys, Std.ExtTreeMap.map_fst_toList_eq_keys]
  exact Std.ExtTreeMap.nodup_keys

/-- The pairs of an assignment make that assignment again. -/
theorem ofPairs_pairs (a : Assignment) : ofPairs a.pairs = a := by
  apply Std.ExtTreeMap.ext_getElem?
  intro key
  rw [getElem?_ofPairs a.nodup_keys_pairs]
  cases hvalue : a[key]? with
  | some value =>
      exact Entries.get?_of_mem a.nodup_keys_pairs
        (Std.ExtTreeMap.mem_toList_iff_getElem?_eq_some.2 hvalue)
  | none =>
      apply Option.eq_none_iff_forall_ne_some.2
      intro value hget
      have hmem := Std.ExtTreeMap.mem_toList_iff_getElem?_eq_some.1 (Entries.mem_of_get? hget)
      rw [hvalue] at hmem
      cases hmem

theorem ofJson_toJson (a : Assignment) : ofJson a.toJson = .ok a := by
  have hpairs : entries text a.toJson = .ok a.pairs :=
    entries_object fun pair _ => text_string pair.2
  rw [ofJson, hpairs]
  exact congrArg Except.ok a.ofPairs_pairs

end Assignment

/-- A page whose store reads as it is documented is read back as it was written. -/
theorem Page.ofJson_toJson {page : Page} (h : page.tokens.WellFormed)
    (hdocumented : page.tokens.Documented) : ofJson page.toJson = .ok page := by
  simp [ofJson, toJson, record, field, fieldOr, Json.Decode.find?, page.assignment.ofJson_toJson,
    hdocumented.storeOfJson_toJson h]

/-- The tokens of a page that is read are labelled, those of a page without tokens among them. -/
theorem Page.labelled_of_ofJson {value : Json} {page : Page} (h : ofJson value = .ok page) :
    page.tokens.Labelled := by
  rcases Except.bind_eq_ok_iff.1 h with ⟨fields, -, h⟩
  rcases Except.bind_eq_ok_iff.1 h with ⟨id, -, h⟩
  rcases Except.bind_eq_ok_iff.1 h with ⟨layer, -, h⟩
  rcases Except.bind_eq_ok_iff.1 h with ⟨name, -, h⟩
  rcases Except.bind_eq_ok_iff.1 h with ⟨assignment, -, h⟩
  rcases Except.bind_eq_ok_iff.1 h with ⟨tokens, htokens, h⟩
  cases h
  rcases fieldOr_cases htokens with rfl | ⟨item, hitem⟩
  · exact (Store.documented_iff.1 Store.documented_empty).2
  · exact Store.labelled_of_storeOfJson hitem

/-! ## Platforms -/

theorem OutputFormat.ofName?_name (format : OutputFormat) : ofName? format.name = some format := by
  cases format <;> rfl

theorem OutputFile.ofJson_toJson (file : OutputFile) : ofJson file.toJson = .ok file := by
  have hformat := choice_string file.format.ofName?_name
  simp [ofJson, toJson, record, field, fieldOr, Json.Decode.find?, hformat]

/-- A matcher without types and path is an object without fields. -/
theorem TokenMatcher.exists_fields (matcher : TokenMatcher) :
    ∃ fields, matcher.toJson = .object fields ∧ (Entries.keys fields).Nodup ∧
      (Entries.get? fields "types" =
        if matcher.types.isEmpty then none else some (.ofTexts matcher.types)) ∧
      Entries.get? fields "pathPrefix" = matcher.pathPrefix.map .string := by
  rcases matcher with ⟨types, pathPrefix⟩
  refine ⟨_, rfl, ?_⟩
  cases types <;> cases pathPrefix <;> simp [Entries.keys, Entries.get?]

theorem TokenMatcher.ofJson_toJson (matcher : TokenMatcher) :
    ofJson matcher.toJson = .ok matcher := by
  rcases matcher.exists_fields with ⟨fields, hfields, hkeys, htypes, hpath⟩
  have htypes' := fieldOr_texts hkeys htypes
  have hpath' := fieldOption_eq_ok hkeys hpath fun path _ => ⟨by simp, text_string path⟩
  rw [ofJson, hfields]
  simp only [record, ok_bind, pure_eq_ok, htypes', hpath']

namespace TransformKind

theorem ofField?_entry (kind : TransformKind) :
    ofField? kind.entry.1 kind.entry.2 = some kind := by
  cases kind with
  | name style =>
      cases style <;> rfl
  | color format =>
      cases format <;> rfl
  | size unit =>
      cases unit <;> rfl
  | time unit =>
      cases unit <;> rfl

theorem contains_keys (kind : TransformKind) : keys.contains kind.entry.1 = true := by
  cases kind <;> rfl

/-- The key of the kind is the first that can be one. -/
theorem ofFields_cons (kind : TransformKind) (rest : List (String × Json)) :
    ofFields ((kind.entry.1, .string kind.entry.2) :: rest) = .ok kind := by
  have hfirst : ((kind.entry.1, Json.string kind.entry.2) :: rest).find?
      (fun field => keys.contains field.1) = some (kind.entry.1, .string kind.entry.2) :=
    List.find?_cons_of_pos kind.contains_keys
  rw [ofFields, hfirst]
  exact fieldChoice_string kind.ofField?_entry

end TransformKind

/-- What the reader finds in a transform's fields: one entry of a kind, and the matcher where there
is one. -/
theorem Transform.exists_fields (transform : Transform) :
    ∃ fields, transform.toJson = .object fields ∧ (Entries.keys fields).Nodup ∧
      TransformKind.ofFields fields = .ok transform.kind ∧
      Entries.get? fields "matcher" = transform.matcher.map (·.toJson) := by
  rcases transform with ⟨kind, matcher⟩
  have hkey : kind.entry.1 ≠ "matcher" := by
    intro heq
    have hkeys := kind.contains_keys
    rw [heq] at hkeys
    cases hkeys
  refine ⟨(kind.entry.1, .string kind.entry.2) ::
    matcher.toList.map fun matcher => ("matcher", matcher.toJson), ?_, ?_, kind.ofFields_cons _, ?_⟩
  · cases matcher <;> rfl
  · have hkeys := (Entries.keys_map_toList_sublist matcher "matcher" (·.toJson)).cons_cons
      kind.entry.1
    exact hkeys.nodup (by simpa using hkey)
  · simp [Entries.get?, hkey]

theorem Transform.ofJson_toJson (transform : Transform) :
    ofJson transform.toJson = .ok transform := by
  rcases transform.exists_fields with ⟨found, hfields, hkeys, hkind, hmatcher⟩
  have hmatcher' := fieldOption_eq_ok hkeys hmatcher fun matcher _ =>
    ⟨nofun, matcher.ofJson_toJson⟩
  rw [ofJson, hfields]
  simp only [fields, ok_bind, pure_eq_ok, hkind, hmatcher']

/-- What stands in the document of a platform. -/
theorem Platform.exists_fields (platform : Platform) :
    ∃ fields, platform.toJson = .object fields ∧ (Entries.keys fields).Nodup ∧
      Entries.get? fields "name" = some (.string platform.name) ∧
      Entries.get? fields "prefix" = platform.namePrefix.map .string ∧
      Entries.get? fields "baseFontSize" = platform.baseFontSize.map .ofFloat ∧
      Entries.get? fields "transforms" = some (.array (platform.transforms.map (·.toJson))) ∧
      Entries.get? fields "outputs" = some (.array (platform.outputs.map (·.toJson))) := by
  refine ⟨_, rfl, ?_, ?_⟩
  · have hkeys := (((List.Sublist.refl ["name"]).append
      (Entries.keys_map_toList_sublist platform.namePrefix "prefix" Json.string)).append
      (Entries.keys_map_toList_sublist platform.baseFontSize "baseFontSize" Json.ofFloat)).append
      (List.Sublist.refl ["transforms", "outputs"])
    have hnodup := hkeys.nodup (by decide)
    simpa [Entries.keys] using hnodup
  · simp [Entries.get?]

/-- A platform whose font size is finite is read back as it was written. -/
theorem Platform.ofJson_toJson {platform : Platform}
    (h : ∀ size ∈ platform.baseFontSize, size.isFinite = true) :
    ofJson platform.toJson = .ok platform := by
  rcases platform.exists_fields with
    ⟨fields, hfields, hkeys, hname, hprefix, hbase, htransforms, houtputs⟩
  have hfinite : ∀ size ∈ platform.baseFontSize,
      Json.ofFloat size ≠ .null ∧ float (.ofFloat size) = .ok size := by
    intro size hsize
    exact ⟨by simp [Json.ofFloat, h size hsize], float_ofFloat (h size hsize)⟩
  have hname' := field_eq_ok hkeys hname (text_string platform.name)
  have hprefix' := fieldOption_eq_ok hkeys hprefix fun start _ => ⟨by simp, text_string start⟩
  have hbase' := fieldOption_eq_ok hkeys hbase hfinite
  have htransforms' := fieldOr_eq_ok hkeys htransforms
    (list_array fun t _ => Transform.ofJson_toJson t) []
  have houtputs' := fieldOr_eq_ok hkeys houtputs
    (list_array fun file _ => OutputFile.ofJson_toJson file) []
  rw [ofJson, hfields]
  simp only [record, ok_bind, pure_eq_ok, hname', hprefix', hbase', htransforms', houtputs']

/-! ## Projects -/

namespace Project

variable {project : Project}

/-- A field of texts is written once or not at all. -/
theorem keys_textsField_sublist (name : String) (texts : List String) :
    (Entries.keys (textsField name texts)).Sublist [name] := by
  unfold textsField
  split
  · exact List.nil_sublist _
  · exact List.Sublist.refl _

theorem get?_textsField (name key : String) (texts : List String) :
    Entries.get? (textsField name texts) key =
      if name = key then (if texts.isEmpty then none else some (.ofTexts texts)) else none := by
  unfold textsField
  split
  · simp
  · simp [Entries.get?]

/-- What stands in the document of a project. The fields of the pipeline are not those of the
project itself. -/
theorem exists_fields (project : Project) :
    ∃ fields, project.toJson = .object fields ∧ (Entries.keys fields).Nodup ∧
      Entries.get? fields "name" = some (.string project.name) ∧
      Entries.get? fields "variables" = some (.array (project.pipeline.vars.map (·.toJson))) ∧
      Entries.get? fields "layers" = some (.array (project.pipeline.layers.map (·.toJson))) ∧
      Entries.get? fields "pages" = some (.array (project.pipeline.pages.map (·.toJson))) ∧
      Entries.get? fields "platforms" = some (.array (project.platforms.map (·.toJson))) ∧
      (Entries.get? fields "source" =
        if project.source.isEmpty then none else some (.ofTexts project.source)) ∧
      (Entries.get? fields "include" =
        if project.includes.isEmpty then none else some (.ofTexts project.includes)) := by
  refine ⟨_, rfl, ?_, ?_⟩
  · have hkeys := ((List.Sublist.refl ["name", "variables", "layers", "pages", "platforms"]).append
      (keys_textsField_sublist "source" project.source)).append
      (keys_textsField_sublist "include" project.includes)
    have hnodup := hkeys.nodup (by decide)
    simpa [Entries.keys, Pipeline.toFields] using hnodup
  · simp [Entries.get?, Pipeline.toFields, get?_textsField]

/-- A project whose stores are documented and whose font sizes are finite is read back as it was
written. -/
theorem ofJson_toJson (hstores : ∀ page ∈ project.pipeline.pages, page.tokens.WellFormed)
    (hdocumented : ∀ page ∈ project.pipeline.pages, page.tokens.Documented)
    (hbase : ∀ platform ∈ project.platforms, ∀ size ∈ platform.baseFontSize,
      size.isFinite = true) :
    ofJson project.toJson = .ok project := by
  rcases project.exists_fields with
    ⟨found, hfields, hkeys, hname, hvars, hlayers, hpages, hplatforms, hsource, hincludes⟩
  have hname' := field_eq_ok hkeys hname (text_string project.name)
  have hvars' := fieldOr_eq_ok hkeys hvars (list_array fun v _ => Variable.ofJson_toJson v) []
  have hlayers' := fieldOr_eq_ok hkeys hlayers
    (list_array fun layer _ => Layer.ofJson_toJson layer) []
  have hpages' := fieldOr_eq_ok hkeys hpages
    (list_array fun page hmem => Page.ofJson_toJson (hstores page hmem) (hdocumented page hmem)) []
  have hplatforms' := fieldOr_eq_ok hkeys hplatforms
    (list_array fun platform hmem => Platform.ofJson_toJson (hbase platform hmem)) []
  have hsource' := fieldOr_texts hkeys hsource
  have hincludes' := fieldOr_texts hkeys hincludes
  rw [ofJson, hfields]
  simp only [fields, Pipeline.ofFields, ok_bind, pure_eq_ok, hname', hvars', hlayers', hpages',
    hplatforms', hsource', hincludes']

/-- What is loaded is labelled, whatever the document. -/
theorem labelled_of_load {value : Json} (h : load value = .ok project) :
    ∀ page ∈ project.pipeline.pages, page.tokens.Labelled := by
  unfold load at h
  split at h
  · cases h
  · rename_i read hread
    rcases Except.exists_of_map_eq_ok h with ⟨-, -, rfl⟩
    -- The pages are those of the field of the document, if it has one.
    rcases Except.bind_eq_ok_iff.1 hread with ⟨fields, -, hread⟩
    rcases Except.bind_eq_ok_iff.1 hread with ⟨name, -, hread⟩
    rcases Except.bind_eq_ok_iff.1 hread with ⟨platforms, -, hread⟩
    rcases Except.bind_eq_ok_iff.1 hread with ⟨source, -, hread⟩
    rcases Except.bind_eq_ok_iff.1 hread with ⟨includes, -, hread⟩
    rcases Except.bind_eq_ok_iff.1 hread with ⟨pipeline, hpipeline, hread⟩
    cases hread
    rcases Except.bind_eq_ok_iff.1 hpipeline with ⟨vars, -, hpipeline⟩
    rcases Except.bind_eq_ok_iff.1 hpipeline with ⟨layers, -, hpipeline⟩
    rcases Except.bind_eq_ok_iff.1 hpipeline with ⟨pages, hpages, hpipeline⟩
    cases hpipeline
    intro page hpage
    rcases fieldOr_cases hpages with rfl | ⟨item, hitem⟩
    · cases hpage
    · rcases exists_of_mem_list hitem hpage with ⟨found, hfound⟩
      exact Page.labelled_of_ofJson hfound

/-- A project with one page, whose platform uses every part of its document. -/
def brandBook (shelf : Store) : Project where
  name := "Brand"
  pipeline :=
    { vars := [⟨⟨"var-mode"⟩, "Mode", "mode", ["light", "dark"]⟩]
      layers := [⟨⟨"layer-theme"⟩, "Theme", -1, ["mode"], true⟩]
      pages := [⟨⟨"page-dark"⟩, ⟨"layer-theme"⟩, "Dark", .ofPairs [("mode", "dark")], shelf⟩] }
  platforms :=
    [{ name := "web"
       namePrefix := some ""
       baseFontSize := some (.ofInt 10)
       transforms := [{ kind := .color .hex, matcher := some {} },
         { kind := .name .kebab, matcher := some ⟨["color"], some "space"⟩ }]
       outputs := [⟨"web.css", .cssVariables, false⟩, ⟨"web.js", .jsModule, true⟩] }]
  source := ["tokens/*.json"]

def restocking : List Store.Operation :=
  [.setToken "space.wide" { value := .string "16px" }, .move "ink" "space", .remove "space.2",
    .rename "space.10" "large"]

/-- A group without entries whose metadata have a `$value`. -/
def valuedGroup : Tree where
  children := [("g", .group { metadata := [("$value", .string "1px")] } [])]

/-- A project with that group on its only page. -/
def valued : Project where
  name := "Brand"
  pipeline :=
    { vars := []
      layers := [⟨⟨"layer-base"⟩, "Base", 0, [], false⟩]
      pages := [⟨⟨"page-base"⟩, ⟨"layer-base"⟩, "Base", .empty, .ofTree valuedGroup⟩] }

theorem proper_valuedGroup : (Store.ofTree valuedGroup).Proper := by
  intro path node hget
  simp only [valuedGroup, Store.ofTree, Store.putNode_group, Store.putEntries, Store.get?_withNames,
    Store.get?_withNode, Store.get?_empty] at hget
  split at hget
  · cases hget
    exact ⟨by simp, by simp⟩
  · split at hget
    · cases hget
      exact Attributes.proper_empty
    · cases hget

end Project
end DesignTokens
