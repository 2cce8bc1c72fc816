import DesignTokens.Proofs.Interchange.Reading
import DesignTokens.Proofs.Json.Parsing

/-!
# Portable platforms

A configuration has no place for files that are not to be written, for files without names, for
matchers, for font sizes that are not finite, for a platform without files, or for two platforms of
one name. Platforms without any of these are portable. Whatever a document says, the platforms that
are imported from it are portable: every entry that is missing or of the wrong kind is made up for
by a default that is portable itself.
-/

namespace DesignTokens

/-- A file that is to be written, under some name. -/
structure OutputFile.Portable (file : OutputFile) : Prop where
  enabled : file.enabled = true
  named : file.fileName ≠ ""

/-- A platform that a configuration has a place for. -/
structure Platform.Portable (platform : Platform) : Prop where
  nonempty : platform.outputs ≠ []
  outputs : ∀ file ∈ platform.outputs, file.Portable
  transforms : ∀ transform ∈ platform.transforms, transform.matcher = none
  baseFontSize : ∀ size ∈ platform.baseFontSize, size.isFinite = true

namespace Interchange

/-- Some platforms, each of its own name, that a configuration has a place for. -/
structure Portable (platforms : List Platform) : Prop where
  nonempty : platforms ≠ []
  distinct : (platforms.map (·.name)).Nodup
  each : ∀ platform ∈ platforms, platform.Portable

variable {config root entries : Entries Json} {group name : String} {value : Json}
  {files : List OutputFile} {transforms : List Transform} {imported : Imported}

/-! ## Transforms -/

/-- A suite of transforms applies to every token. -/
theorem matcher_of_mem_suite {style : NameCase} {format : Value.ColorFormat} {size : Value.SizeUnit}
    {time : Value.TimeUnit} : ∀ transform ∈ Transform.suite style format size time,
      transform.matcher = none := by
  simp [Transform.suite]

theorem matcher_of_group? (h : Transform.group? group = some transforms) :
    ∀ transform ∈ transforms, transform.matcher = none := by
  unfold Transform.group? at h
  split at h
  · exact Option.some.inj h ▸ matcher_of_mem_suite
  · split at h
    · exact Option.some.inj h ▸ matcher_of_mem_suite
    · split at h
      · exact Option.some.inj h ▸ matcher_of_mem_suite
      · split at h
        · exact Option.some.inj h ▸ matcher_of_mem_suite
        · cases h

/-- The transforms of a name apply to every token. -/
theorem matcher_of_transformsNamed? (h : transformsNamed? name = some transforms) :
    ∀ transform ∈ transforms, transform.matcher = none := by
  rcases Option.bind_eq_some_iff.1 h with ⟨preset, -, hgroup⟩
  exact matcher_of_group? hgroup

theorem matcher_readTransformNames (items : List Json) :
    ∀ transform ∈ (readTransformNames items).1, transform.matcher = none := by
  intro transform hmem
  rw [readTransformNames_fst] at hmem
  rcases List.mem_filterMap.1 hmem with ⟨item, -, hitem⟩
  rcases Option.bind_eq_some_iff.1 hitem with ⟨text, -, hnamed⟩
  rcases Option.map_eq_some_iff.1 hnamed with ⟨kind, -, rfl⟩
  rfl

/-- Transforms that a configuration lists apply to every token. -/
theorem matcher_readTransforms {group : Option String}
    (h : (readTransforms config group).1 = some transforms) :
    ∀ transform ∈ transforms, transform.matcher = none := by
  unfold readTransforms at h
  split at h
  · rename_i items hitems
    exact Option.some.inj h ▸ matcher_readTransformNames items
  · cases h
    exact List.forall_mem_nil _
  · split at h
    · cases h
    · split at h
      · rename_i named hnamed
        exact Option.some.inj h ▸ matcher_of_transformsNamed? hnamed
      · cases h
        exact List.forall_mem_nil _

theorem matcher_defaultTransforms (files : List OutputFile) :
    ∀ transform ∈ (defaultTransforms files).1, transform.matcher = none := by
  intro transform hmem
  cases hnamed : transformsNamed?
      ((files.head?.map fun file => presetOfFormat file.format).getD "css") with
  | none =>
      simp [defaultTransforms, hnamed] at hmem
  | some transforms =>
      simp only [defaultTransforms, hnamed, Option.getD_some] at hmem
      exact matcher_of_transformsNamed? hnamed transform hmem

/-- Whatever transforms a configuration leads to, they apply to every token. -/
theorem matcher_chosenTransforms (config : Entries Json) :
    ∀ transform ∈ (chosenTransforms config).1, transform.matcher = none := by
  unfold chosenTransforms
  split
  · rename_i transforms hasked
    exact matcher_readTransforms hasked
  · exact matcher_defaultTransforms _

/-! ## Files -/

/-- Every format has a file name of its own to write to. -/
theorem defaultFileName_ne_empty (format : OutputFormat) : format.defaultFileName ≠ "" := by
  cases format <;> decide

theorem portable_of_readFile {item : Json} {file : OutputFile}
    (h : (readFile item).1 = some file) : file.Portable := by
  unfold readFile at h
  split at h
  · rename_i fields
    rw [← Option.some.inj h]
    refine ⟨rfl, ?_⟩
    show (readDestination fields (readFormat fields).1).1 ≠ ""
    unfold readDestination
    split
    · rename_i destination hdestination
      simpa using (Option.filter_eq_some_iff.1 hdestination).2
    · exact defaultFileName_ne_empty _
  · cases h

theorem portable_readFiles (items : List Json) : ∀ file ∈ (readFiles items).1, file.Portable := by
  intro file hmem
  rw [readFiles_fst] at hmem
  rcases List.mem_filterMap.1 hmem with ⟨item, -, hread⟩
  exact portable_of_readFile hread

theorem portable_preset (group : String) : (Platform.preset group).Portable where
  nonempty := by
    simp [Platform.preset]
  outputs := by
    intro file hmem
    rw [List.mem_singleton.1 hmem]
    exact ⟨rfl, defaultFileName_ne_empty _⟩
  transforms := by
    cases hgroup : Transform.group? group with
    | none =>
        simp [Platform.preset, hgroup]
    | some transforms =>
        simpa [Platform.preset, hgroup] using matcher_of_group? hgroup
  baseFontSize := nofun

/-- A configuration leads to one file at least. -/
theorem chosenFiles_ne_nil (config : Entries Json) : (chosenFiles config).1 ≠ [] := by
  unfold chosenFiles
  split
  · exact (portable_preset _).nonempty
  · rename_i hsome
    simpa using hsome

theorem portable_chosenFiles (config : Entries Json) :
    ∀ file ∈ (chosenFiles config).1, file.Portable := by
  unfold chosenFiles
  split
  · exact (portable_preset _).outputs
  · exact portable_readFiles _

/-! ## Platforms -/

/-- A platform that is read survives an export, as its font sizes are finite. -/
theorem portable_readPlatform (h : (Json.object config).Proper) (name : String) :
    (readPlatform name config).1.Portable where
  nonempty := chosenFiles_ne_nil config
  outputs := portable_chosenFiles config
  transforms := matcher_chosenTransforms config
  baseFontSize := by
    intro size hsize
    rcases Option.bind_eq_some_iff.1 hsize with ⟨value, hvalue, hfloat⟩
    rcases (Option.orElse_eq_some ..).1 hvalue with hpx | ⟨-, hplain⟩
    · exact (h.get? hpx).isFinite_of_float? hfloat
    · exact (h.get? hplain).isFinite_of_float? hfloat

def objectNames (entries : Entries Json) : List String :=
  Entries.keys (entries.filter fun entry => entry.2.object?.isSome)

theorem names_readPlatforms (entries : Entries Json) :
    (readPlatforms entries).1.map (·.name) = objectNames entries := by
  rw [readPlatforms_fst, objectNames]
  induction entries with
  | nil =>
      rfl
  | cons entry rest ih =>
      cases h : entry.2.object? with
      | none =>
          simpa [h] using ih
      | some config =>
          simpa [h, Entries.keys, readPlatform_eq] using ih

theorem portable_preset_css : Portable [Platform.preset "css"] where
  nonempty := List.cons_ne_nil _ _
  distinct := List.nodup_singleton _
  each := List.forall_mem_singleton.2 (portable_preset "css")

/-- Platforms that are read are portable together when there is one. -/
theorem portable_readPlatforms (h : (Json.object entries).Proper)
    (hsome : (readPlatforms entries).1 ≠ []) : Portable (readPlatforms entries).1 where
  nonempty := hsome
  distinct := by
    have hkeys : (Entries.keys entries).Nodup := (Json.proper_object_iff.1 h).1
    rw [names_readPlatforms]
    exact hkeys.sublist (List.filter_sublist.map _)
  each := by
    intro platform hmem
    rw [readPlatforms_fst] at hmem
    rcases List.mem_filterMap.1 hmem with ⟨entry, hentry, hread⟩
    rcases Option.map_eq_some_iff.1 hread with ⟨config, hconfig, rfl⟩
    have hproper : entry.2.Proper := (Json.proper_object_iff.1 h).2 entry hentry
    rw [Json.object?_eq_some_iff.1 hconfig] at hproper
    exact portable_readPlatform hproper entry.1

theorem proper_platformEntries (h : value.Proper) :
    (Json.object (platformEntries value)).Proper := by
  unfold platformEntries
  cases hentries : (value.field? "platforms").bind Json.object? with
  | none =>
      simp [Entries.keys]
  | some entries =>
      rcases Option.bind_eq_some_iff.1 hentries with ⟨platforms, hfield, hplatforms⟩
      rcases Option.bind_eq_some_iff.1 hfield with ⟨root, hroot, hget⟩
      rw [Json.object?_eq_some_iff.1 hroot] at h
      rw [Json.object?_eq_some_iff.1 hplatforms] at hget
      exact h.get? hget

/-- The platforms of an import are portable, also where the preset takes their place. -/
theorem portable_chosenPlatforms (h : value.Proper) : Portable (chosenPlatforms value) := by
  unfold chosenPlatforms
  split
  · exact portable_preset_css
  · rename_i hsome
    exact portable_readPlatforms (proper_platformEntries h) hsome

theorem names_chosenPlatforms (hsome : objectNames (platformEntries value) ≠ []) :
    (chosenPlatforms value).map (·.name) = objectNames (platformEntries value) := by
  have hne : (readPlatforms (platformEntries value)).1 ≠ [] := by
    intro hnil
    rw [← names_readPlatforms, hnil] at hsome
    exact hsome rfl
  rw [chosenPlatforms, if_neg hne, names_readPlatforms]

/-- A document without a platform has the preset for CSS. -/
theorem chosenPlatforms_of_none (hnone : objectNames (platformEntries value) = []) :
    chosenPlatforms value = [Platform.preset "css"] := by
  rw [← names_readPlatforms, List.map_eq_nil_iff] at hnone
  rw [chosenPlatforms, if_pos hnone]

/-- Everything imported can be exported and imported again. -/
theorem portable_of_importJson (h : value.Proper) (himport : importJson value = .ok imported) :
    Portable imported.platforms := by
  rw [(imported_of_importJson himport).1]
  exact portable_chosenPlatforms h

/-- Whatever is accepted as a document comes out portable. -/
theorem portable_of_importText {text : String} (himport : importText text = .ok imported) :
    Portable imported.platforms := by
  unfold importText at himport
  split at himport
  · rename_i value hparse
    exact portable_of_importJson (Json.proper_parse hparse) himport
  · cases himport

end Interchange
end DesignTokens
