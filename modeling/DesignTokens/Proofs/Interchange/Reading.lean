import DesignTokens.Interchange.Import

/-!
# Reading configurations item by item

The readers of a configuration walk along lists and collect what they read together with the faults
that they find. Here each of the two is said on its own, as a function of the list.
-/

namespace DesignTokens
namespace Interchange

variable {config : Entries Json}

/-! ## Lists -/

/-- Of a list of names, the transforms read are those with a known name, in order. -/
theorem readTransformNames_fst (items : List Json) :
    (readTransformNames items).1 =
      items.filterMap fun item => item.string?.bind transformNamed? := by
  induction items with
  | nil =>
      rfl
  | cons item rest ih =>
      cases h : item.string?.bind transformNamed? <;> simp [readTransformNames, h, ih]

/-- Of a list of names, the items without a known one are reported, in order. -/
theorem readTransformNames_snd (items : List Json) :
    (readTransformNames items).2 =
      (items.filter fun item => (item.string?.bind transformNamed?).isNone).map
        ImportFault.unknownTransform := by
  induction items with
  | nil =>
      rfl
  | cons item rest ih =>
      cases h : item.string?.bind transformNamed? <;> simp [readTransformNames, h, ih]

theorem readFiles_fst (items : List Json) :
    (readFiles items).1 = items.filterMap fun item => (readFile item).1 := by
  induction items with
  | nil =>
      rfl
  | cons item rest ih =>
      cases h : (readFile item).1 <;> simp [readFiles, h, ih]

theorem readFiles_snd (items : List Json) :
    (readFiles items).2 = items.flatMap fun item => (readFile item).2 := by
  induction items with
  | nil =>
      rfl
  | cons item rest ih =>
      simp [readFiles, ih]

theorem readPlatforms_fst (entries : List (String × Json)) :
    (readPlatforms entries).1 = entries.filterMap fun entry =>
      entry.2.object?.map fun config => (readPlatform entry.1 config).1 := by
  induction entries with
  | nil =>
      rfl
  | cons entry rest ih =>
      rcases entry with ⟨name, value⟩
      cases value <;> simp [readPlatforms, Json.object?, ih]

/-- The warnings for one entry among the platforms. -/
def entryWarnings (entry : String × Json) : List ImportWarning :=
  match entry.2.object? with
  | some config => (readPlatform entry.1 config).2.map (⟨some entry.1, ·⟩)
  | none => [⟨some entry.1, .platformNotObject⟩]

theorem readPlatforms_snd (entries : List (String × Json)) :
    (readPlatforms entries).2 = entries.flatMap entryWarnings := by
  induction entries with
  | nil =>
      rfl
  | cons entry rest ih =>
      rcases entry with ⟨name, value⟩
      cases value <;> simp [readPlatforms, entryWarnings, Json.object?, ih]

/-! ## One platform -/

/-- The group of transforms that a platform asks for. -/
def requestedGroup (config : Entries Json) : Option String :=
  (Entries.get? config "transformGroup").bind Json.string?

def listedFiles (config : Entries Json) : List Json :=
  ((Entries.get? config "files").bind Json.array?).getD []

/-- The transforms of a platform, those that suit its files when it asks for none. -/
def chosenTransforms (config : Entries Json) : Reported (List Transform) :=
  match (readTransforms config (requestedGroup config)).1 with
  | some transforms => (transforms, [])
  | none => defaultTransforms (readFiles (listedFiles config)).1

/-- The files of a platform, the usual ones of its group when none of those it lists can be used. -/
def chosenFiles (config : Entries Json) : Reported (List OutputFile) :=
  if (readFiles (listedFiles config)).1.isEmpty then defaultFiles (requestedGroup config)
  else ((readFiles (listedFiles config)).1, [])

theorem readPlatform_eq (name : String) (config : Entries Json) :
    readPlatform name config =
      ({ name := name
         namePrefix := (Entries.get? config "prefix").bind Json.string?
         baseFontSize :=
           (Entries.get? config "basePxFontSize" <|> Entries.get? config "baseFontSize").bind
             Json.float?
         transforms := (chosenTransforms config).1
         outputs := (chosenFiles config).1 },
        (readTransforms config (requestedGroup config)).2 ++ (readFiles (listedFiles config)).2 ++
          (chosenTransforms config).2 ++ (chosenFiles config).2) :=
  rfl

/-! ## One configuration -/

def platformEntries (value : Json) : Entries Json :=
  ((value.field? "platforms").bind Json.object?).getD []

/-- The platforms of a document, the usual one when none can be used. -/
def chosenPlatforms (value : Json) : List Platform :=
  if (readPlatforms (platformEntries value)).1 = [] then [Platform.preset "css"]
  else (readPlatforms (platformEntries value)).1

/-- The document has platforms that are no object. -/
def PlatformsMistyped (value : Json) : Prop :=
  ∃ platforms, value.field? "platforms" = some platforms ∧ platforms.object? = none

/-- Reading the platforms fails exactly when they are no object; the warnings of the platforms come
first. -/
theorem readPlatformEntry_cases (root : Entries Json) :
    (PlatformsMistyped (.object root) ∧ readPlatformEntry root = .error .platformsNotObject) ∨
      (¬ PlatformsMistyped (.object root) ∧ ∃ after : List ImportFault, readPlatformEntry root =
        .ok (chosenPlatforms (.object root),
          (readPlatforms (platformEntries (.object root))).2 ++ after.map (⟨none, ·⟩))) := by
  have hfield : (Json.object root).field? "platforms" = Entries.get? root "platforms" := rfl
  unfold readPlatformEntry PlatformsMistyped chosenPlatforms platformEntries
  rw [hfield]
  split
  · -- Without platforms there is the preset, with a warning.
    rename_i hnone
    rw [hnone]
    exact Or.inr ⟨nofun, [.noPlatforms], rfl⟩
  · -- An object is read entry by entry.
    rename_i entries hentries
    refine Or.inr ⟨?_, ?_⟩
    · rintro ⟨platforms, hplatforms, hmistyped⟩
      rw [hentries] at hplatforms
      cases hplatforms
      cases hmistyped
    · rw [hentries]
      rcases hread : readPlatforms entries with ⟨platforms, warnings⟩
      cases platforms with
      | nil =>
          exact ⟨[.noUsablePlatforms], by simp [hread, Json.object?]⟩
      | cons platform rest =>
          exact ⟨[], by simp [hread, Json.object?]⟩
  · -- Anything else is an error.
    rename_i platforms hother hsome
    refine Or.inl ⟨⟨platforms, hsome, ?_⟩, rfl⟩
    cases platforms with
    | object entries =>
        exact absurd rfl (hother entries)
    | null =>
        rfl
    | bool b =>
        rfl
    | number n =>
        rfl
    | string text =>
        rfl
    | array items =>
        rfl

/-- An import is refused for one of two reasons. Otherwise it brings in the platforms with the
warnings for them, and all other warnings are for no platform. -/
theorem importJson_cases (value : Json) :
    (value.object? = none ∧ importJson value = .error .rootNotObject) ∨
      (PlatformsMistyped value ∧ importJson value = .error .platformsNotObject) ∨
      (value.object?.isSome ∧ ¬ PlatformsMistyped value ∧ ∃ source includes,
        ∃ before after : List ImportFault,
        importJson value = .ok ⟨chosenPlatforms value, source, includes,
          before.map (⟨none, ·⟩) ++ (readPlatforms (platformEntries value)).2 ++
            after.map (⟨none, ·⟩)⟩) := by
  cases value with
  | object root =>
      rcases readPlatformEntry_cases root with ⟨hmistyped, hread⟩ | ⟨hobject, after, hread⟩
      · exact Or.inr (Or.inl ⟨hmistyped, by simp [importJson, hread, bind, Except.bind]⟩)
      · -- The patterns of files are read before the platforms and reported around them.
        have hread' : importJson (.object root) =
            .ok ⟨chosenPlatforms (.object root), (readGlobs root "source").1,
              (readGlobs root "include").1,
              ((readGlobs root "source").2 ++ (readGlobs root "include").2).map (⟨none, ·⟩) ++
                (readPlatforms (platformEntries (.object root))).2 ++ after.map (⟨none, ·⟩)⟩ := by
          simp [importJson, hread, bind, Except.bind, pure, Except.pure]
        exact Or.inr (Or.inr ⟨rfl, hobject, _, _, _, after, hread'⟩)
  | null =>
      exact Or.inl ⟨rfl, rfl⟩
  | bool b =>
      exact Or.inl ⟨rfl, rfl⟩
  | number n =>
      exact Or.inl ⟨rfl, rfl⟩
  | string text =>
      exact Or.inl ⟨rfl, rfl⟩
  | array items =>
      exact Or.inl ⟨rfl, rfl⟩

variable {value : Json} {error : ImportError} {imported : Imported}

/-- An import fails for a root or for platforms that are no object, and for nothing else. -/
theorem importJson_eq_error_iff :
    importJson value = .error error ↔
      (error = .rootNotObject ∧ value.object? = none) ∨
        (error = .platformsNotObject ∧ PlatformsMistyped value) := by
  have hexclusive : value.object? = none → ¬ PlatformsMistyped value := by
    rintro hnone ⟨platforms, hfield, -⟩
    simp [Json.field?, hnone] at hfield
  rcases importJson_cases value with ⟨hnone, hread⟩ | ⟨hmistyped, hread⟩ |
    ⟨hobject, hplatforms, _, _, _, _, hread⟩
  · simp [hread, hnone, hexclusive hnone, eq_comm]
  · have hobject : value.object? ≠ none := fun hnone => hexclusive hnone hmistyped
    simp [hread, hobject, hmistyped, eq_comm]
  · have hsome : value.object? ≠ none := Option.isSome_iff_ne_none.1 hobject
    simp [hread, hsome, hplatforms]

/-- What an import returns: the platforms, and their warnings among others that name none. -/
theorem imported_of_importJson (h : importJson value = .ok imported) :
    imported.platforms = chosenPlatforms value ∧ ∃ before after : List ImportFault,
      imported.warnings = before.map (⟨none, ·⟩) ++ (readPlatforms (platformEntries value)).2 ++
        after.map (⟨none, ·⟩) := by
  rcases importJson_cases value with ⟨-, hread⟩ | ⟨-, hread⟩ |
    ⟨-, -, source, includes, before, after, hread⟩
  · rw [hread] at h
    cases h
  · rw [hread] at h
    cases h
  · rw [hread] at h
    cases h
    exact ⟨rfl, before, after, rfl⟩

end Interchange
end DesignTokens
