import DesignTokens.Proofs.Project.Outputs

/-!
# Builds of one configuration or platform

A build can be limited to a configuration, to a platform or to both. What it makes is then a part of
what the full build makes: the configurations and platforms that are left out are the only
difference, since file names count all configurations of the project and defects are those of a
configuration, whatever it is built for.
-/

namespace DesignTokens

namespace Sequence

variable {α : Type*} {key : α → String} {name : String} {items : List α}

/-- With distinct keys, the first item of a key is the only one. -/
theorem exists_find?_of_nodup (hkeys : (items.map key).Nodup) (hname : name ∈ items.map key) :
    ∃ a, items.find? (key · = name) = some a ∧ items.filter (name = key ·) = [a] := by
  induction items with
  | nil =>
      cases hname
  | cons first rest ih =>
      rcases List.nodup_cons.1 hkeys with ⟨hfresh, hrest⟩
      by_cases hkey : name = key first
      · subst hkey
        have hnone : rest.filter (key first = key ·) = [] := by
          apply List.filter_eq_nil_iff.2
          intro other hother hsame
          have hsame' : key first = key other := by simpa using hsame
          exact hfresh (hsame' ▸ List.mem_map_of_mem hother)
        exact ⟨first, by simp, by simp [hnone]⟩
      · have hlater : name ∈ rest.map key := (List.mem_cons.1 hname).resolve_left hkey
        simpa [hkey, Ne.symm hkey] using ih hrest hlater

end Sequence

/-! ## Parts of reports -/

namespace Report

variable {configName platformName : Option String}

/-- What a report says of one configuration and one platform, each of them all when not given. A
defect belongs to no platform. -/
def slice (report : Report) (configName platformName : Option String) : Report where
  artifacts := report.artifacts.filter fun artifact =>
    configName.all (· = artifact.config) && platformName.all (· = artifact.platform)
  defects := report.defects.filter fun reported => configName.all (· = reported.config)

/-- The slice of two reports is that of the one and of the other. -/
theorem slice_append (first second : Report) :
    (first.append second).slice configName platformName =
      (first.slice configName platformName).append (second.slice configName platformName) := by
  simp [slice, append]

/-- The slice of several reports is that of each. -/
theorem slice_concat (reports : List Report) :
    (concat reports).slice configName platformName =
      concat (reports.map (·.slice configName platformName)) := by
  induction reports with
  | nil =>
      rfl
  | cons first rest ih =>
      exact (slice_append first (concat rest)).trans (congrArg _ ih)

/-- Items for which nothing is reported can be left out. -/
theorem concat_map_ite {α : Type*} (keep : α → Bool) (report : α → Report) (items : List α) :
    concat (items.map fun a => if keep a then report a else empty) =
      concat ((items.filter keep).map report) := by
  induction items with
  | nil =>
      rfl
  | cons first rest ih =>
      cases hkeep : keep first with
      | true =>
          simpa [hkeep, concat] using congrArg (append (report first)) ih
      | false =>
          simpa [hkeep, concat, append, empty] using ih

end Report

/-! ## Parts of builds -/

section

variable {configName platformName : Option String} (tokens : List ResolvedToken) (config : String)
  (multiple : Bool)

/-- Every file of a platform names it and its configuration, so that all are left or none is. -/
theorem Platform.filter_render (platform : Platform) :
    ((platform.render tokens config multiple).filter fun artifact =>
      configName.all (· = artifact.config) && platformName.all (· = artifact.platform)) =
        if configName.all (· = config) && platformName.all (· = platform.name) then
          platform.render tokens config multiple
        else [] := by
  rw [Platform.render, List.filter_map]
  show List.map _ (platform.enabledOutputs.filter fun _ =>
    configName.all (· = config) && platformName.all (· = platform.name)) = _
  split
  · rename_i hkept
    simp [hkept]
  · rename_i hleft
    simp [hleft]

/-- What is left of rendered platforms is what the platform of that name renders, for the config of
that name. -/
theorem filter_flatMap_render (platforms : List Platform) :
    ((platforms.flatMap fun platform => platform.render tokens config multiple).filter
      fun artifact => configName.all (· = artifact.config) &&
        platformName.all (· = artifact.platform)) =
      if configName.all (· = config) then
        (platforms.filter fun platform => platformName.all (· = platform.name)).flatMap
          fun platform => platform.render tokens config multiple
      else [] := by
  induction platforms with
  | nil =>
      simp
  | cons platform rest ih =>
      rw [List.flatMap_cons, List.filter_append, Platform.filter_render, ih]
      by_cases hconfig : configName.all (· = config)
      · by_cases hplatform : platformName.all (· = platform.name)
        · simp [hconfig, hplatform]
        · simp [hconfig, hplatform]
      · simp [hconfig]

end

namespace Project

variable {project : Project} {configName platformName : Option String} {report : Report}

/-- The part of the report of a configuration is the report for the platforms that are left, or
nothing when the configuration itself is left out. -/
theorem slice_buildConfig (platforms : List Platform) (multiple : Bool) (config : BuildConfig) :
    (project.buildConfig platforms multiple config).slice configName platformName =
      if configName.all (· = config.name) then
        project.buildConfig (platforms.filter fun platform => platformName.all (· = platform.name))
          multiple config
      else .empty := by
  rw [buildConfig, Report.slice, filter_flatMap_render, List.filter_map]
  by_cases hconfig : configName.all (· = config.name)
  · simp [hconfig, buildConfig, Function.comp_def]
  · simp [hconfig, Report.empty, Function.comp_def]

/-- The platforms of an accepted project that a filter asks for, all when it asks for none. -/
theorem chosenPlatforms_eq_ok (hvalid : project.validate = .ok ())
    (hknown : ∀ name ∈ platformName, name ∈ project.platforms.map (·.name)) :
    project.chosenPlatforms platformName =
      .ok (project.platforms.filter fun platform => platformName.all (· = platform.name)) := by
  cases platformName with
  | none =>
      simp [chosenPlatforms]
  | some name =>
      rcases Sequence.exists_find?_of_nodup (validate_eq_ok_iff.1 hvalid).2 (hknown name rfl) with
        ⟨found, hfound, hfilter⟩
      simp [chosenPlatforms, platform, hfound, hfilter, Except.map]

/-- The configurations that a filter asks for, when their names tell them apart. -/
theorem chosenConfigs_eq_ok (hnames : (project.buildConfigs.map (·.name)).Nodup)
    (hknown : ∀ name ∈ configName, name ∈ project.buildConfigs.map (·.name)) :
    project.chosenConfigs configName =
      .ok (project.buildConfigs.filter fun config => configName.all (· = config.name)) := by
  cases configName with
  | none =>
      simp [chosenConfigs]
  | some name =>
      rcases Sequence.exists_find?_of_nodup hnames (hknown name rfl) with ⟨found, hfound, hfilter⟩
      simp [chosenConfigs, config, hfound, hfilter, Except.map]

/-- A build that is limited to a configuration or a platform of an accepted project succeeds, and
makes exactly that part of what the full build makes, when no two configurations share a name. -/
theorem buildFiltered_eq_slice (hvalid : project.validate = .ok ())
    (hnames : (project.buildConfigs.map (·.name)).Nodup) (hbuild : project.buildAll = .ok report)
    (hconfig : ∀ name ∈ configName, name ∈ project.buildConfigs.map (·.name))
    (hplatform : ∀ name ∈ platformName, name ∈ project.platforms.map (·.name)) :
    project.buildFiltered configName platformName = .ok (report.slice configName platformName) := by
  have hreport : Report.concat (project.buildConfigs.map
      (project.buildConfig project.platforms (decide (1 < project.buildConfigs.length)))) =
        report := Except.ok.inj hbuild
  rw [buildFiltered, chosenConfigs_eq_ok hnames hconfig, chosenPlatforms_eq_ok hvalid hplatform,
    ← hreport, Report.slice_concat, List.map_map]
  refine congrArg Except.ok ?_
  rw [← Report.concat_map_ite]
  exact congrArg Report.concat (List.map_congr_left fun config _ => (slice_buildConfig _ _ _).symm)

/-- A project for two platforms whose layer has no page for `dark`. -/
def unfinished : Project where
  name := "Brand"
  pipeline :=
    { vars := [⟨⟨"var-mode"⟩, "Mode", "mode", ["light", "dark"]⟩]
      layers := [⟨⟨"layer-theme"⟩, "Theme", 0, ["mode"], true⟩]
      pages := [⟨⟨"page-light"⟩, ⟨"layer-theme"⟩, "Light", .ofPairs [("mode", "light")], .empty⟩] }
  platforms := [Platform.preset "css", Platform.preset "android"]

/-- One file of four is left, and the defect with it. -/
theorem buildFiltered_eq_slice_unfinished :
    ∃ report, unfinished.buildAll = .ok report ∧
      unfinished.buildFiltered (some "dark") (some "css") =
        .ok (report.slice (some "dark") (some "css")) ∧
      report.artifacts.length = 4 ∧
      (report.slice (some "dark") (some "css")).artifacts.map (·.fileName) =
        ["tokens-dark.css"] ∧
      (report.slice (some "dark") (some "css")).defects.length = 1 := by
  refine ⟨_, rfl, buildFiltered_eq_slice ?_ ?_ rfl ?_ ?_, ?_, ?_, ?_⟩
  all_goals decide +kernel

end Project
end DesignTokens
