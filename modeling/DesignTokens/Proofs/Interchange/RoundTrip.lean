import DesignTokens.Interchange.Export
import DesignTokens.Proofs.Interchange.Portable

/-!
# Exporting and importing

Import undoes export for portable platforms, and for no others. Since everything that is imported is
portable, a document that has once been imported and exported is imported again without a warning.
-/

namespace DesignTokens
namespace Interchange

/-! ## Tables -/

section Tables

variable {α : Type} {table : List (String × α)} {name : String} {a : α}

theorem meaning?_of_mem (hdistinct : (table.map (·.1)).Nodup) (h : (name, a) ∈ table) :
    meaning? table name = some a := by
  induction table with
  | nil =>
      cases h
  | cons entry rest ih =>
      rw [List.map_cons, List.nodup_cons] at hdistinct
      rcases List.mem_cons.1 h with rfl | hrest
      · simp [meaning?]
      · have hne : entry.1 ≠ name := by
          rintro rfl
          exact hdistinct.1 (List.mem_map.2 ⟨(entry.1, a), hrest, rfl⟩)
        simpa [meaning?, hne] using ih hdistinct.2 hrest

/-- Reading accepts the name that writing uses. -/
theorem meaning?_of_nameOf? [DecidableEq α] (hdistinct : (table.map (·.1)).Nodup)
    (h : nameOf? table a = some name) : meaning? table name = some a := by
  rcases Option.map_eq_some_iff.1 h with ⟨⟨first, b⟩, hfind, rfl⟩
  have heq : b = a := by simpa using List.find?_some hfind
  exact meaning?_of_mem hdistinct (heq ▸ List.mem_of_find?_eq_some hfind)

end Tables

theorem nodup_transformNames : (transformNames.map (·.1)).Nodup := by
  decide

theorem nodup_formatNames : (formatNames.map (·.1)).Nodup := by
  decide

/-- Every kind of transform has a name. -/
theorem exists_transformName? (kind : TransformKind) :
    ∃ name, transformName? kind = some name ∧ transformNamed? name = some { kind := kind } := by
  have hname : (transformName? kind).isSome := by
    cases kind with
    | name style =>
        cases style <;> rfl
    | color format =>
        cases format <;> rfl
    | size unit =>
        cases unit <;> rfl
    | time unit =>
        cases unit <;> rfl
  rcases Option.isSome_iff_exists.1 hname with ⟨name, hsome⟩
  refine ⟨name, hsome, ?_⟩
  rw [transformNamed?, meaning?_of_nameOf? nodup_transformNames hsome]
  rfl

theorem formatNamed?_formatName (format : OutputFormat) :
    formatNamed? (formatName format) = some format := by
  have hname : nameOf? formatNames format = some (formatName format) := by
    cases format <;> rfl
  exact meaning?_of_nameOf? nodup_formatNames hname

/-! ## Reading what was written -/

variable {platform : Platform} {platforms : List Platform} {source includes : List String}
  {value : Json}

/-- Transforms that apply to every token are read back from their names. -/
theorem readTransformNames_exported {transforms : List Transform}
    (h : ∀ transform ∈ transforms, transform.matcher = none) :
    readTransformNames ((transforms.filterMap fun transform => transformName? transform.kind).map
      Json.string) = (transforms, []) := by
  induction transforms with
  | nil =>
      rfl
  | cons transform rest ih =>
      rcases transform with ⟨kind, matcher⟩
      have hparts := List.forall_mem_cons.1 h
      have hmatcher : matcher = none := hparts.1
      rcases exists_transformName? kind with ⟨name, hname, hnamed⟩
      simp [readTransformNames, Json.string?, hname, hnamed, hmatcher, ih hparts.2]

/-- A portable file is read back as it was written. -/
theorem readFile_exportFile {file : OutputFile} (h : file.Portable) :
    readFile (exportFile file) = (some file, []) := by
  rcases file with ⟨fileName, format, enabled⟩
  have hnamed : fileName ≠ "" := h.named
  have henabled : enabled = true := h.enabled
  simp [exportFile, readFile, readFormat, readDestination, Entries.get?, Json.string?,
    formatNamed?_formatName, hnamed, henabled, Option.filter]

theorem readFiles_exported {files : List OutputFile} (h : ∀ file ∈ files, file.Portable) :
    readFiles (files.map exportFile) = (files, []) := by
  induction files with
  | nil =>
      rfl
  | cons file rest ih =>
      have hparts := List.forall_mem_cons.1 h
      simp [readFiles, readFile_exportFile hparts.1, ih hparts.2]

theorem readGlobItems_exported (key : String) (texts : List String) :
    readGlobItems key (texts.map Json.string) = (texts, []) := by
  induction texts with
  | nil =>
      rfl
  | cons text rest ih =>
      simp [readGlobItems, Json.string?, ih]

def exportedFields (platform : Platform) : Entries Json :=
  [("transforms",
      .ofTexts (platform.transforms.filterMap fun transform => transformName? transform.kind))] ++
    (platform.namePrefix.toList.map fun text => ("prefix", .string text)) ++
    (platform.baseFontSize.toList.map fun size => ("basePxFontSize", .ofFloat size)) ++
    [("files", .array (platform.enabledOutputs.map exportFile))]

/-- A portable platform is read back from its fields without a fault. -/
theorem readPlatform_exportedFields (h : platform.Portable) :
    readPlatform platform.name (exportedFields platform) = (platform, []) := by
  have henabled : platform.enabledOutputs = platform.outputs :=
    List.filter_eq_self.2 fun file hmem => (h.outputs file hmem).enabled
  -- Each entry of the platform is read back from its field.
  have hgroup : requestedGroup (exportedFields platform) = none := by
    simp [requestedGroup, exportedFields, Entries.get?]
  have htransforms : readTransforms (exportedFields platform) none =
      (some platform.transforms, []) := by
    simp [readTransforms, exportedFields, Entries.get?, Json.ofTexts,
      readTransformNames_exported h.transforms]
  have hfiles : readFiles (listedFiles (exportedFields platform)) = (platform.outputs, []) := by
    simp [listedFiles, exportedFields, Entries.get?, Json.array?, henabled,
      readFiles_exported h.outputs]
  have hprefix : (Entries.get? (exportedFields platform) "prefix").bind Json.string? =
      platform.namePrefix := by
    cases hprefix : platform.namePrefix <;>
      simp [exportedFields, Entries.get?, hprefix, Json.string?]
  have hsize : (Entries.get? (exportedFields platform) "basePxFontSize" <|>
      Entries.get? (exportedFields platform) "baseFontSize").bind Json.float? =
        platform.baseFontSize := by
    cases hsize : platform.baseFontSize with
    | none =>
        simp [exportedFields, Entries.get?, hsize]
    | some size =>
        have hfinite : size.isFinite = true := h.baseFontSize size hsize
        simp [exportedFields, Entries.get?, hsize, Json.ofFloat, hfinite, Json.float?,
          Json.Number.toFloat]
  rw [readPlatform_eq, hprefix, hsize]
  simp [chosenTransforms, chosenFiles, hgroup, htransforms, hfiles, h.nonempty]

/-- Portable platforms are read back in order without a warning. -/
theorem readPlatforms_exported (h : ∀ platform ∈ platforms, platform.Portable) :
    readPlatforms (platforms.map fun platform => (platform.name, exportPlatform platform)) =
      (platforms, []) := by
  induction platforms with
  | nil =>
      rfl
  | cons platform rest ih =>
      have hparts := List.forall_mem_cons.1 h
      have hexport : exportPlatform platform = .object (exportedFields platform) := rfl
      simp [readPlatforms, hexport, readPlatform_exportedFields hparts.1, ih hparts.2]

def exportedRoot (platforms : List Platform) (source includes : List String) : Entries Json :=
  [("source", .ofTexts source)] ++
    (if includes.isEmpty then [] else [("include", .ofTexts includes)]) ++
    [("platforms", .object (Entries.ofPairs (platforms.map fun platform =>
      (platform.name, exportPlatform platform))))]

theorem readGlobs_source (platforms : List Platform) (source includes : List String) :
    readGlobs (exportedRoot platforms source includes) "source" = (source, []) := by
  simp [readGlobs, exportedRoot, Entries.get?, Json.ofTexts, readGlobItems_exported]

/-- No includes are written as no list at all. -/
theorem readGlobs_include (platforms : List Platform) (source includes : List String) :
    readGlobs (exportedRoot platforms source includes) "include" = (includes, []) := by
  cases includes with
  | nil =>
      simp [readGlobs, exportedRoot, Entries.get?]
  | cons first rest =>
      have hitems := readGlobItems_exported "include" (first :: rest)
      simpa [readGlobs, exportedRoot, Entries.get?, Json.ofTexts] using hitems

theorem readPlatformEntry_exportedRoot (h : Portable platforms) (source includes : List String) :
    readPlatformEntry (exportedRoot platforms source includes) = .ok (platforms, []) := by
  have hpairs : Entries.ofPairs (platforms.map fun platform =>
      (platform.name, exportPlatform platform)) =
        platforms.map fun platform => (platform.name, exportPlatform platform) := by
    refine Entries.ofPairs_eq_self ?_
    rw [Entries.keys, List.map_map]
    exact h.distinct
  have hget : Entries.get? (exportedRoot platforms source includes) "platforms" =
      some (.object (platforms.map fun platform => (platform.name, exportPlatform platform))) := by
    cases includes <;> simp [exportedRoot, Entries.get?, hpairs]
  simp [readPlatformEntry, hget, readPlatforms_exported h.each, h.nonempty]

/-- An export of portable platforms is read back as it was, with the paths and without a warning. -/
theorem importJson_exportJson_of_portable (h : Portable platforms) :
    importJson (exportJson platforms source includes) = .ok ⟨platforms, source, includes, []⟩ := by
  have hexport : exportJson platforms source includes =
      .object (exportedRoot platforms source includes) := rfl
  simp [hexport, importJson, readGlobs_source, readGlobs_include,
    readPlatformEntry_exportedRoot h, bind, Except.bind, pure, Except.pure]

/-! ## Exports as documents -/

/-- An exported platform is a value that a document can hold. -/
theorem proper_exportPlatform (platform : Platform) : (exportPlatform platform).Proper := by
  have hfiles : ∀ file, (exportFile file).Proper := by
    intro file
    simp [exportFile, Entries.keys]
  have hobject : (Json.object (exportedFields platform)).Proper := by
    unfold exportedFields
    cases platform.namePrefix <;> cases platform.baseFontSize <;>
      simp [Entries.keys, Json.proper_ofTexts, Json.proper_ofFloat, hfiles]
  exact hobject

/-- An export is a document, so that its import is portable whatever was exported. -/
theorem proper_exportJson (platforms : List Platform) (source includes : List String) :
    (exportJson platforms source includes).Proper := by
  have hentries : (Json.object (Entries.ofPairs (platforms.map fun platform =>
      (platform.name, exportPlatform platform)))).Proper := by
    refine Json.proper_ofPairs ?_
    intro entry hmem
    rcases List.mem_map.1 hmem with ⟨platform, -, rfl⟩
    exact proper_exportPlatform platform
  refine Json.proper_object_iff.2 ⟨?_, ?_⟩
  · cases includes <;> simp [Entries.keys]
  · simp only [List.forall_mem_append, List.forall_mem_singleton]
    refine ⟨⟨Json.proper_ofTexts source, ?_⟩, hentries⟩
    split
    · exact List.forall_mem_nil _
    · exact List.forall_mem_singleton.2 (Json.proper_ofTexts includes)

/-! ## Round trips -/

/-- Import undoes export for the platforms that a configuration has a place for, and for no others:
then it brings back the platforms, the sources and the includes, and has nothing to report. -/
theorem importJson_exportJson_iff (platforms : List Platform) (source includes : List String) :
    importJson (exportJson platforms source includes) = .ok ⟨platforms, source, includes, []⟩ ↔
      Portable platforms := by
  constructor
  · intro h
    exact portable_of_importJson (proper_exportJson platforms source includes) h
  · exact importJson_exportJson_of_portable

/-- An import is refused only when the document is no object or its platforms are none. It brings in
portable platforms, one for each platform that is an object and in their order, and these stay as
they are when they are exported and imported once more. -/
theorem importJson_settles (h : value.Proper) :
    (∀ error, importJson value = .error error ↔
      (error = .rootNotObject ∧ value.object? = none) ∨
        (error = .platformsNotObject ∧ PlatformsMistyped value)) ∧
      ∀ imported, importJson value = .ok imported →
        Portable imported.platforms ∧
          (if objectNames (platformEntries value) = [] then
            imported.platforms = [Platform.preset "css"]
          else imported.platforms.map (·.name) = objectNames (platformEntries value)) ∧
          importJson (exportJson imported.platforms imported.source imported.includes) =
            .ok { imported with warnings := [] } := by
  refine ⟨fun error => importJson_eq_error_iff, ?_⟩
  intro imported himport
  have hportable := portable_of_importJson h himport
  refine ⟨hportable, ?_, importJson_exportJson_of_portable hportable⟩
  rw [(imported_of_importJson himport).1]
  split
  · rename_i hnone
    exact chosenPlatforms_of_none hnone
  · rename_i hsome
    exact names_chosenPlatforms hsome

/-- Two platforms beside an entry that is none, with a transform and a file that cannot be read. -/
def mixedConfiguration : Json :=
  .object [("source", .string "tokens.json"), ("platforms", .object [
    ("web", .object [("transforms", .array [.ofNat 1, .string "size/rem"]),
      ("basePxFontSize", .ofNat 16), ("files", .array [.null, .object []])]),
    ("docs", .null), ("app", .object [("transformGroup", .string "ios")])])]

theorem importJson_settles_mixed :
    mixedConfiguration.Proper ∧ ∃ imported, importJson mixedConfiguration = .ok imported ∧
      imported.warnings.length = 6 ∧ imported.platforms.map (·.name) = ["web", "app"] ∧
      importJson (exportJson imported.platforms imported.source imported.includes) =
        .ok { imported with warnings := [] } := by
  have hproper : mixedConfiguration.Proper := by
    simp [mixedConfiguration, Entries.keys, Json.ofNat, Json.Number.Proper]
  refine ⟨hproper, _, rfl, rfl, ?_⟩
  rcases (importJson_settles hproper).2 _ rfl with ⟨-, hnames, hagain⟩
  exact ⟨hnames, hagain⟩

end Interchange
end DesignTokens
