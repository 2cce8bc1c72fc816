import DesignTokens.Proofs.Interchange.Portable
import Mathlib.Data.List.Forall2

/-!
# What an import reports

The entries of a platform that cannot be used, and the items of its lists that are not taken over as
they are written, are its misfits. Most misfits have a warning of their own: no two share one, and
the warnings come in the order of the misfits. A prefix that is no text and a font size that is no
number are dropped without one, and so is a group that is no text beside a list of transforms: with
`null` in their place the import is the same.
-/

namespace DesignTokens
namespace Interchange

/-! ## Misfits -/

inductive Misfit where
  | entry (key : String) (value : Json)
  | transform (item : Json)
  | file (item : Json)

/-- The entry under a key when it is there and cannot be read. -/
def mistyped {α : Type} (config : Entries Json) (key : String) (read? : Json → Option α) :
    List Misfit :=
  ((Entries.get? config key).filter fun value => (read? value).isNone).toList.map (.entry key)

def listedTransforms (config : Entries Json) : List Json :=
  ((Entries.get? config "transforms").bind Json.array?).getD []

def isTransform (item : Json) : Bool :=
  (item.string?.bind transformNamed?).isSome

/-- An object with the name of a format and a destination. -/
def isFile (item : Json) : Bool :=
  ((item.field? "format").bind Json.string?).any (fun name => (formatNamed? name).isSome) &&
    ((item.field? "destination").bind Json.string?).any (· ≠ "")

/-- What is wrong with a platform, in the order in which a reader comes to report it. -/
def misfits (config : Entries Json) : List Misfit :=
  mistyped config "transforms" Json.array? ++
    ((listedTransforms config).filter (!isTransform ·)).map .transform ++
    ((listedFiles config).filter (!isFile ·)).map .file ++
    mistyped config "transformGroup" Json.string? ++
    mistyped config "files" Json.array? ++
    mistyped config "prefix" Json.string? ++
    mistyped config "basePxFontSize" Json.float? ++
    mistyped config "baseFontSize" Json.float?

/-- The import has something to say about a mistyped entry with the key. -/
def hearsKey (config : Entries Json) (key : String) : Bool :=
  key = "transforms" || key = "files" ||
    (key = "transformGroup" && !Entries.has config "transforms")

/-- The import has something to say about the misfit. -/
def Misfit.isHeard (config : Entries Json) : Misfit → Bool
  | .entry key _ => hearsKey config key
  | .transform _ => true
  | .file _ => true

inductive Reports : Misfit → ImportFault → Prop
  | transformsNotList (value : Json) :
      Reports (.entry "transforms" value) (.transformsNotList value)
  | unknownTransform (item : Json) : Reports (.transform item) (.unknownTransform item)
  | fileNotObject (item : Json) : Reports (.file item) (.fileNotObject item)
  | unknownFormat {fields : Entries Json} {name : String}
      (h : Entries.get? fields "format" = some (.string name)) :
      Reports (.file (.object fields)) (.unknownFormat name)
  | noFormat (fields : Entries Json) : Reports (.file (.object fields)) .noFormat
  | noDestination (fields : Entries Json) (fileName : String) :
      Reports (.file (.object fields)) (.noDestination fileName)
  | noTransforms (value : Json) (preset : String) :
      Reports (.entry "transformGroup" value) (.noTransforms preset)
  | noFiles (value : Json) (fileNames : List String) :
      Reports (.entry "files" value) (.noFiles fileNames)

/-- The faults among warnings that are about a platform. -/
def faultsFor (name : String) (warnings : List ImportWarning) : List ImportFault :=
  (warnings.filter (·.platform = some name)).map (·.fault)

variable {config entries : Entries Json} {name key : String} {value item : Json}
  {imported : Imported}

/-! ## Warnings for one platform -/

/-- The faults reported for a platform in two lists of warnings are those of the one and of the
other. -/
theorem faultsFor_append (name : String) (first second : List ImportWarning) :
    faultsFor name (first ++ second) = faultsFor name first ++ faultsFor name second := by
  simp [faultsFor]

theorem faultsFor_none (name : String) (faults : List ImportFault) :
    faultsFor name (faults.map (⟨none, ·⟩)) = [] := by
  simp [faultsFor]

/-- Warnings of one entry are not about a platform of another name. -/
theorem faultsFor_entryWarnings_of_ne {entry : String × Json} (h : entry.1 ≠ name) :
    faultsFor name (entryWarnings entry) = [] := by
  unfold entryWarnings
  cases entry.2.object? <;> simp [faultsFor, h]

/-- The warnings of an entry are the faults of its platform. -/
theorem faultsFor_entryWarnings (name : String) (config : Entries Json) :
    faultsFor name (entryWarnings (name, .object config)) = (readPlatform name config).2 := by
  simp [entryWarnings, Json.object?, faultsFor, List.filter_map, Function.comp_def]

theorem faultsFor_readPlatforms_of_not_mem (h : name ∉ Entries.keys entries) :
    faultsFor name (readPlatforms entries).2 = [] := by
  rw [readPlatforms_snd]
  induction entries with
  | nil =>
      rfl
  | cons entry rest ih =>
      have hparts : entry.1 ≠ name ∧ name ∉ Entries.keys rest := by
        simpa [Entries.keys, eq_comm] using h
      rw [List.flatMap_cons, faultsFor_append, faultsFor_entryWarnings_of_ne hparts.1,
        ih hparts.2]
      rfl

/-- With distinct names, the faults reported for a platform are its own. -/
theorem faultsFor_readPlatforms (hdistinct : (Entries.keys entries).Nodup)
    (hget : Entries.get? entries name = some (.object config)) :
    faultsFor name (readPlatforms entries).2 = (readPlatform name config).2 := by
  rw [readPlatforms_snd]
  induction entries with
  | nil =>
      cases hget
  | cons entry rest ih =>
      rcases entry with ⟨first, value⟩
      have hparts : first ∉ Entries.keys rest ∧ (Entries.keys rest).Nodup := by
        simpa [Entries.keys] using hdistinct
      rw [List.flatMap_cons, faultsFor_append]
      by_cases heq : first = name
      · subst heq
        have hvalue : value = .object config := by simpa [Entries.get?] using hget
        -- No later entry has the name again, so that all of its warnings are in this one.
        have hrest := faultsFor_readPlatforms_of_not_mem hparts.1
        rw [readPlatforms_snd] at hrest
        rw [hvalue, hrest, faultsFor_entryWarnings, List.append_nil]
      · have hget' : Entries.get? rest name = some (.object config) := by
          simpa [Entries.get?, heq] using hget
        rw [faultsFor_entryWarnings_of_ne heq, ih hparts.2 hget', List.nil_append]

/-- The warnings of an import for one of its platforms are the faults of that platform. -/
theorem faultsFor_of_importJson (h : value.Proper) (himport : importJson value = .ok imported)
    (hentry : Entries.get? (platformEntries value) name = some (.object config)) :
    faultsFor name imported.warnings = (readPlatform name config).2 := by
  rcases (imported_of_importJson himport).2 with ⟨before, after, hwarnings⟩
  rw [hwarnings, faultsFor_append, faultsFor_append, faultsFor_none, faultsFor_none,
    faultsFor_readPlatforms (Json.proper_object_iff.1 (proper_platformEntries h)).1 hentry]
  simp

/-! ## Misfits that are reported -/

theorem sublistForall₂_append {α β : Type} {R : α → β → Prop} {a₁ a₂ : List α} {b₁ b₂ : List β}
    (h₁ : List.SublistForall₂ R a₁ b₁) (h₂ : List.SublistForall₂ R a₂ b₂) :
    List.SublistForall₂ R (a₁ ++ a₂) (b₁ ++ b₂) := by
  rcases List.sublistForall₂_iff.1 h₁ with ⟨l₁, hrel₁, hsub₁⟩
  rcases List.sublistForall₂_iff.1 h₂ with ⟨l₂, hrel₂, hsub₂⟩
  exact List.sublistForall₂_iff.2 ⟨l₁ ++ l₂, List.rel_append hrel₁ hrel₂, hsub₁.append hsub₂⟩

/-- An entry is mistyped in one way at most: it is there and cannot be read. -/
theorem mistyped_eq_nil_or {α : Type} (config : Entries Json) (key : String)
    (read? : Json → Option α) :
    mistyped config key read? = [] ∨ ∃ value, Entries.get? config key = some value ∧
      read? value = none ∧ mistyped config key read? = [.entry key value] := by
  unfold mistyped
  cases hget : Entries.get? config key with
  | none =>
      exact Or.inl rfl
  | some value =>
      cases hread : read? value with
      | none =>
          exact Or.inr ⟨value, rfl, hread, by simp [hread]⟩
      | some a =>
          exact Or.inl (by simp [hread])

/-- Transforms that are no list are one fault, and none of them is read. -/
theorem readTransforms_of_not_array (group : Option String)
    (hget : Entries.get? config "transforms" = some value) (hvalue : value.array? = none) :
    readTransforms config group = (some [], [.transformsNotList value]) := by
  cases value <;> simp_all [readTransforms, Json.array?]

/-- Listed transforms are read by name, with a fault for a group beside them and for each unknown
name. -/
theorem readTransforms_of_array {items : List Json} (group : Option String)
    (hget : Entries.get? config "transforms" = some (.array items)) :
    readTransforms config group =
      (some (readTransformNames items).1,
        (if group.isSome then [.transformsAndGroup] else []) ++
          (items.filter (!isTransform ·)).map .unknownTransform) := by
  simp [readTransforms, hget, readTransformNames_snd, isTransform]

/-- The faults of the transforms report their misfits in order. -/
theorem sublist_transforms (config : Entries Json) (group : Option String) :
    List.SublistForall₂ Reports
      (mistyped config "transforms" Json.array? ++
        ((listedTransforms config).filter (!isTransform ·)).map .transform)
      (readTransforms config group).2 := by
  cases hget : Entries.get? config "transforms" with
  | none =>
      simp only [mistyped, listedTransforms, hget]
      exact List.SublistForall₂.nil
  | some value =>
      cases hvalue : value.array? with
      | none =>
          -- The value as a whole is the only misfit.
          have hmisfits : mistyped config "transforms" Json.array? ++
              ((listedTransforms config).filter (!isTransform ·)).map .transform =
                [.entry "transforms" value] := by
            simp [mistyped, listedTransforms, hget, hvalue]
          rw [hmisfits, readTransforms_of_not_array group hget hvalue]
          exact .cons (.transformsNotList value) .nil
      | some items =>
          -- The misfits are the items without a known name, as the faults are.
          have hmisfits : mistyped config "transforms" Json.array? ++
              ((listedTransforms config).filter (!isTransform ·)).map .transform =
                [] ++ (items.filter (!isTransform ·)).map .transform := by
            simp [mistyped, listedTransforms, hget, hvalue]
          rw [Json.array?_eq_some_iff.1 hvalue] at hget
          rw [hmisfits, readTransforms_of_array group hget]
          refine sublistForall₂_append .nil (List.sublistForall₂_iff.2 ⟨_, ?_, List.Sublist.refl _⟩)
          rw [List.forall₂_map_left_iff, List.forall₂_map_right_iff]
          exact List.forall₂_same.2 fun item _ => .unknownTransform item

/-- A format that is missing, mistyped or unknown is reported; without a report it is a known
one. -/
theorem readFormat_faults (file : Entries Json) :
    (∀ fault ∈ (readFormat file).2, Reports (.file (.object file)) fault) ∧
      ((readFormat file).2 = [] → ((Entries.get? file "format").bind Json.string?).any
        fun name => (formatNamed? name).isSome) := by
  unfold readFormat
  split
  · rename_i name hname
    split
    · rename_i format hformat
      exact ⟨List.forall_mem_nil _, fun _ => by simp [hname, hformat]⟩
    · rcases Option.bind_eq_some_iff.1 hname with ⟨value, hget, htext⟩
      rw [Json.string?_eq_some_iff.1 htext] at hget
      exact ⟨List.forall_mem_singleton.2 (.unknownFormat hget), nofun⟩
  · exact ⟨List.forall_mem_singleton.2 (.noFormat file), nofun⟩

/-- A destination that is missing, mistyped or empty is reported; without a report it is a text with
characters. -/
theorem readDestination_faults (file : Entries Json) (format : OutputFormat) :
    (∀ fault ∈ (readDestination file format).2, Reports (.file (.object file)) fault) ∧
      ((readDestination file format).2 = [] →
        ((Entries.get? file "destination").bind Json.string?).any (· ≠ "")) := by
  unfold readDestination
  split
  · rename_i destination hdestination
    rcases Option.filter_eq_some_iff.1 hdestination with ⟨hsome, hne⟩
    exact ⟨List.forall_mem_nil _, fun _ => by simpa [hsome] using hne⟩
  · exact ⟨List.forall_mem_singleton.2 (.noDestination file _), nofun⟩

/-- All faults of an item are about it, and without a fault it is taken over as it is written. -/
theorem readFile_faults (item : Json) :
    (∀ fault ∈ (readFile item).2, Reports (.file item) fault) ∧
      ((readFile item).2 = [] → isFile item) := by
  cases item with
  | object file =>
      have hformat := readFormat_faults file
      have hdestination := readDestination_faults file (readFormat file).1
      have hfaults : (readFile (.object file)).2 =
          (readFormat file).2 ++ (readDestination file (readFormat file).1).2 := rfl
      rw [hfaults, List.forall_mem_append, List.append_eq_nil_iff]
      refine ⟨⟨hformat.1, hdestination.1⟩, ?_⟩
      rintro ⟨hnone, hnone'⟩
      exact Bool.and_eq_true_iff.2 ⟨hformat.2 hnone, hdestination.2 hnone'⟩
  | null =>
      exact ⟨List.forall_mem_singleton.2 (.fileNotObject _), nofun⟩
  | bool b =>
      exact ⟨List.forall_mem_singleton.2 (.fileNotObject _), nofun⟩
  | number n =>
      exact ⟨List.forall_mem_singleton.2 (.fileNotObject _), nofun⟩
  | string text =>
      exact ⟨List.forall_mem_singleton.2 (.fileNotObject _), nofun⟩
  | array items =>
      exact ⟨List.forall_mem_singleton.2 (.fileNotObject _), nofun⟩

/-- Every item of the files that is not a file has a fault that reports it. -/
theorem sublist_file (item : Json) :
    List.SublistForall₂ Reports (if isFile item then [] else [.file item]) (readFile item).2 := by
  rcases readFile_faults item with ⟨hreports, hclean⟩
  split
  · exact .nil
  · rename_i hfile
    cases hfaults : (readFile item).2 with
    | nil =>
        exact absurd (hclean hfaults) hfile
    | cons fault rest =>
        exact .cons (hreports fault (hfaults ▸ List.mem_cons_self ..)) .nil

theorem sublist_files (items : List Json) :
    List.SublistForall₂ Reports ((items.filter (!isFile ·)).map .file) (readFiles items).2 := by
  rw [readFiles_snd]
  induction items with
  | nil =>
      exact List.SublistForall₂.nil
  | cons item rest ih =>
      have hsplit : ((item :: rest).filter (!isFile ·)).map Misfit.file =
          (if isFile item then [] else [.file item]) ++
            (rest.filter (!isFile ·)).map Misfit.file := by
        by_cases hfile : isFile item <;> simp [hfile]
      rw [hsplit, List.flatMap_cons]
      exact sublistForall₂_append (sublist_file item) ih

theorem readTransforms_of_none {group : Option String}
    (hget : Entries.get? config "transforms" = none) (hgroup : group = none) :
    readTransforms config group = (none, []) := by
  simp [readTransforms, hget, hgroup]

/-- A group that is no text is reported unless transforms stand beside it. -/
theorem sublist_group (config : Entries Json) :
    List.SublistForall₂ Reports
      (if Entries.has config "transforms" then []
        else mistyped config "transformGroup" Json.string?)
      (chosenTransforms config).2 := by
  split
  · exact .nil
  · rename_i habsent
    rcases mistyped_eq_nil_or config "transformGroup" Json.string? with hnil |
      ⟨value, hget, htext, hone⟩
    · rw [hnil]
      exact .nil
    · have hnone : Entries.get? config "transforms" = none := by
        simpa [Entries.has_eq_isSome] using habsent
      have hgroup : requestedGroup config = none := by
        simp [requestedGroup, hget, htext]
      rw [hone, chosenTransforms, readTransforms_of_none hnone hgroup]
      exact .cons (.noTransforms value _) .nil

theorem sublist_noFiles (config : Entries Json) :
    List.SublistForall₂ Reports (mistyped config "files" Json.array?) (chosenFiles config).2 := by
  rcases mistyped_eq_nil_or config "files" Json.array? with hnil | ⟨value, hget, harray, hone⟩
  · rw [hnil]
    exact .nil
  · -- What is no array has no items, and no items are reported as no files.
    have hlisted : listedFiles config = [] := by
      simp [listedFiles, hget, harray]
    rw [hone, chosenFiles, hlisted]
    exact .cons (.noFiles value _) .nil

/-- Of a key's misfits all are heard or none is. -/
theorem filter_mistyped {α : Type} (config : Entries Json) (key : String)
    (read? : Json → Option α) :
    (mistyped config key read?).filter (Misfit.isHeard config) =
      if hearsKey config key then mistyped config key read? else [] := by
  unfold mistyped
  cases h : hearsKey config key <;> simp [List.filter_map, Function.comp_def, Misfit.isHeard, h]

/-- The misfits that are heard: those of the transforms, the files, the group and the file list. -/
theorem filter_misfits (config : Entries Json) :
    (misfits config).filter (Misfit.isHeard config) =
      (mistyped config "transforms" Json.array? ++
        ((listedTransforms config).filter (!isTransform ·)).map .transform) ++
        ((listedFiles config).filter (!isFile ·)).map .file ++
        (if Entries.has config "transforms" then []
          else mistyped config "transformGroup" Json.string?) ++
        mistyped config "files" Json.array? := by
  cases hhas : Entries.has config "transforms" <;>
    simp [misfits, filter_mistyped, hearsKey, List.filter_map, Function.comp_def, Misfit.isHeard,
      hhas]

/-- The misfits of a platform that are heard, each with a fault of its own. -/
theorem sublist_readPlatform (name : String) (config : Entries Json) :
    List.SublistForall₂ Reports ((misfits config).filter (Misfit.isHeard config))
      (readPlatform name config).2 := by
  rw [filter_misfits, readPlatform_eq]
  exact sublistForall₂_append (sublistForall₂_append
    (sublistForall₂_append (sublist_transforms config _) (sublist_files _)) (sublist_group config))
      (sublist_noFiles config)

/-! ## Misfits that are not reported -/

/-- A platform with transforms of any kind is never said to have none. -/
theorem readTransforms_of_has (group : Option String)
    (h : Entries.has config "transforms" = true) :
    ∃ transforms faults, readTransforms config group = (some transforms, faults) ∧
      ∀ preset, .noTransforms preset ∉ faults := by
  rw [Entries.has_eq_isSome] at h
  rcases Option.isSome_iff_exists.1 h with ⟨value, hget⟩
  cases hvalue : value.array? with
  | none =>
      exact ⟨[], _, readTransforms_of_not_array group hget hvalue, by simp⟩
  | some items =>
      rw [Json.array?_eq_some_iff.1 hvalue] at hget
      refine ⟨_, _, readTransforms_of_array group hget, ?_⟩
      cases group <;> simp

/-- A platform with transforms is not told that it has none. -/
theorem noTransforms_not_mem_readPlatform (name preset : String)
    (h : Entries.has config "transforms" = true) :
    .noTransforms preset ∉ (readPlatform name config).2 := by
  rcases readTransforms_of_has (requestedGroup config) h with ⟨transforms, faults, hread, hnot⟩
  have hfiles : .noTransforms preset ∉ (readFiles (listedFiles config)).2 := by
    rw [readFiles_snd]
    intro hmem
    rcases List.mem_flatMap.1 hmem with ⟨item, -, hitem⟩
    cases (readFile_faults item).1 _ hitem
  have hdefault : .noTransforms preset ∉ (chosenFiles config).2 := by
    unfold chosenFiles
    split <;> simp [defaultFiles]
  simp only [readPlatform_eq, chosenTransforms, hread, List.mem_append, List.not_mem_nil, or_false,
    not_or]
  exact ⟨⟨hnot preset, hfiles⟩, hdefault⟩

/-- No fault reports an entry with a key that the reader has no fault for. -/
theorem not_reports_of_unheard {fault : ImportFault} (hunheard : hearsKey config key = false)
    (hmem : fault ∈ (readPlatform name config).2) : ¬ Reports (.entry key value) fault := by
  intro hreports
  cases hreports with
  | noTransforms value preset =>
      have hlist : Entries.has config "transforms" = true := by
        simpa [hearsKey] using hunheard
      exact noTransforms_not_mem_readPlatform name preset hlist hmem
  | transformsNotList value =>
      cases hunheard
  | noFiles value fileNames =>
      cases hunheard

theorem of_entry_mem_mistyped {α : Type} {read? : Json → Option α} {first : String}
    (h : .entry key value ∈ mistyped config first read?) :
    key = first ∧ Entries.get? config key = some value ∧ read? value = none := by
  rcases mistyped_eq_nil_or config first read? with hnil | ⟨old, hget, hread, hone⟩
  · rw [hnil] at h
    cases h
  · rw [hone] at h
    cases List.mem_singleton.1 h
    exact ⟨rfl, hget, hread⟩

/-- The keys of misfits that are not heard, each with what the import wants there. -/
theorem unheard_cases (h : .entry key value ∈ misfits config)
    (hunheard : hearsKey config key = false) :
    Entries.get? config key = some value ∧
      ((key = "transformGroup" ∨ key = "prefix") ∧ value.string? = none ∨
        (key = "basePxFontSize" ∨ key = "baseFontSize") ∧ value.float? = none) := by
  have htransform : ∀ items : List Json, .entry key value ∉ items.map Misfit.transform := by
    simp
  have hfile : ∀ items : List Json, .entry key value ∉ items.map Misfit.file := by
    simp
  simp only [misfits, List.mem_append, htransform, hfile, or_false] at h
  -- Six entries can be mistyped. Two of them are always heard.
  rcases h with ((((htransforms | hgroup) | hfiles) | hprefix) | hpx) | hsize
  · rcases of_entry_mem_mistyped htransforms with ⟨rfl, -, -⟩
    cases hunheard
  · rcases of_entry_mem_mistyped hgroup with ⟨rfl, hget, hread⟩
    exact ⟨hget, Or.inl ⟨Or.inl rfl, hread⟩⟩
  · rcases of_entry_mem_mistyped hfiles with ⟨rfl, -, -⟩
    cases hunheard
  · rcases of_entry_mem_mistyped hprefix with ⟨rfl, hget, hread⟩
    exact ⟨hget, Or.inl ⟨Or.inr rfl, hread⟩⟩
  · rcases of_entry_mem_mistyped hpx with ⟨rfl, hget, hread⟩
    exact ⟨hget, Or.inr ⟨Or.inl rfl, hread⟩⟩
  · rcases of_entry_mem_mistyped hsize with ⟨rfl, hget, hread⟩
    exact ⟨hget, Or.inr ⟨Or.inr rfl, hread⟩⟩

/-- Changing another entry does not change the transforms. -/
theorem readTransforms_put (hkey : key ≠ "transforms") (value : Json) (group : Option String) :
    readTransforms (Entries.put config key value) group = readTransforms config group := by
  simp [readTransforms, hkey]

/-- A misfit that is not heard leaves no trace: the platform is read as if `null` stood there. -/
theorem readPlatform_put_null (h : .entry key value ∈ misfits config)
    (hunheard : hearsKey config key = false) (name : String) :
    readPlatform name (Entries.put config key .null) = readPlatform name config := by
  have hstring : Json.null.string? = none := rfl
  have hfloat : Json.null.float? = none := rfl
  rcases unheard_cases h hunheard with ⟨hget, ⟨rfl | rfl, hread⟩ | ⟨rfl | rfl, hread⟩⟩
  · simp [readPlatform, readTransforms_put, hstring, hget, hread]
  · simp [readPlatform, readTransforms_put, hstring, hget, hread]
  · simp [readPlatform, readTransforms_put, hfloat, hget, hread]
  · -- This key is only read when the one before is absent.
    cases hpx : Entries.get? config "basePxFontSize" <;>
      simp [readPlatform, readTransforms_put, hfloat, hget, hread, hpx]

/-! ## Imports -/

/-- For each platform of an accepted document, the misfits that are heard have warnings of their
own, in the same order. Any other has none, and the platform is read as if it were `null`. -/
theorem reports_importJson (h : value.Proper) (himport : importJson value = .ok imported)
    (hentry : Entries.get? (platformEntries value) name = some (.object config)) :
    List.SublistForall₂ Reports ((misfits config).filter (Misfit.isHeard config))
        (faultsFor name imported.warnings) ∧
      ∀ key old, .entry key old ∈ misfits config → hearsKey config key = false →
        (∀ fault ∈ faultsFor name imported.warnings, ¬ Reports (.entry key old) fault) ∧
          readPlatform name (Entries.put config key .null) = readPlatform name config := by
  rw [faultsFor_of_importJson h himport hentry]
  refine ⟨sublist_readPlatform name config, ?_⟩
  intro key old hmisfit hunheard
  refine ⟨?_, readPlatform_put_null hmisfit hunheard name⟩
  intro fault hmem
  exact not_reports_of_unheard hunheard hmem

/-- A platform in which little is of the kind that it should be. -/
def carelessPlatform : Entries Json :=
  [("transforms", .ofTexts ["attribute/cti", "color/hex"]), ("transformGroup", .null),
    ("prefix", .ofNat 5), ("basePxFontSize", .string "16px"),
    ("files", .array [.string "a.css", .object [("destination", .string "b.css")]])]

theorem reports_importJson_careless :
    ∃ imported,
      importJson (.object [("platforms", .object [("web", .object carelessPlatform)])]) =
        .ok imported ∧
      List.SublistForall₂ Reports
        [.transform (.string "attribute/cti"), .file (.string "a.css"),
          .file (.object [("destination", .string "b.css")])] (faultsFor "web" imported.warnings) ∧
      readPlatform "web" (Entries.put carelessPlatform "prefix" .null) =
        readPlatform "web" carelessPlatform := by
  have hproper : (Json.object
      [("platforms", .object [("web", .object carelessPlatform)])]).Proper := by
    simp [Entries.keys, carelessPlatform, Json.proper_ofTexts, Json.ofNat, Json.Number.Proper]
  have hmisfits : misfits carelessPlatform =
      [.transform (.string "attribute/cti"), .file (.string "a.css"),
        .file (.object [("destination", .string "b.css")]), .entry "transformGroup" .null,
        .entry "prefix" (.ofNat 5), .entry "basePxFontSize" (.string "16px")] := rfl
  have hmisfit : .entry "prefix" (.ofNat 5) ∈ misfits carelessPlatform := by
    simp [hmisfits]
  refine ⟨_, rfl, ?_⟩
  rcases @reports_importJson carelessPlatform "web" _ _ hproper rfl rfl with ⟨hheard, hunheard⟩
  exact ⟨hheard, (hunheard "prefix" _ hmisfit rfl).2⟩

def numericPrefix : Entries Json :=
  [("transforms", .ofTexts ["color/hex"]), ("prefix", .ofNat 5),
    ("files", .array
      [.object [("destination", .string "a.css"), ("format", .string "css/variables")]])]

/-- The prefix is dropped, and the import has nothing to report. -/
theorem unreported_numericPrefix :
    ∃ imported,
      importJson (.object [("platforms", .object [("web", .object numericPrefix)])]) =
        .ok imported ∧
      misfits numericPrefix = [.entry "prefix" (.ofNat 5)] ∧
      imported.platforms.map (·.namePrefix) = [none] ∧ imported.warnings = [] :=
  ⟨_, rfl, rfl, rfl, rfl⟩

end Interchange
end DesignTokens
