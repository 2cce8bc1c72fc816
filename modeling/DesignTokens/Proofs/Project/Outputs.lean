import DesignTokens.Project.Bundle
import DesignTokens.Proofs.Pipeline.Configurations
import DesignTokens.Proofs.Project.FileNames
import DesignTokens.Proofs.Sequence
import Mathlib.Data.List.ProdSigma

/-!
# Files of a build that overwrite one another

A full build writes one file for each configuration and each output of a platform. Two of these
have one path in two cases only: when two configurations have the same name, or when the name of one
platform leads into the folder of another. The name of a configuration joins its values by dashes,
so that values with dashes of their own can make the same name twice.
-/

namespace DesignTokens

/-! ## Paths -/

namespace Artifact

/-- Where the file stands in a bundle or below an output directory. -/
def bundlePath (artifact : Artifact) : String :=
  artifact.platform ++ "/" ++ artifact.fileName

end Artifact

namespace Platform

/-- The file name of the first output that is written, as the platform states it. -/
def template (platform : Platform) : String :=
  (platform.enabledOutputs.map (·.fileName)).headD ""

/-- A platform with a single enabled output renders it to one path for a config. -/
theorem map_bundlePath_render {platform : Platform} (h : platform.enabledOutputs.length = 1)
    (tokens : List ResolvedToken) (config : String) (multiple : Bool) :
    (platform.render tokens config multiple).map Artifact.bundlePath =
      [platform.name ++ "/" ++ FileName.forConfig platform.template config multiple] := by
  rcases List.length_eq_one_iff.1 h with ⟨output, houtput⟩
  simp [render, template, houtput, Artifact.bundlePath]

end Platform

/-- Two paths with a slash are the same when their parts are, or when one of them goes on below the
first part of the other. -/
theorem append_slash_eq_iff {a b f g : String} :
    a ++ "/" ++ f = b ++ "/" ++ g ↔
      (a = b ∧ f = g) ∨ (∃ rest, b = a ++ "/" ++ rest ∧ f = rest ++ "/" ++ g) ∨
        ∃ rest, a = b ++ "/" ++ rest ∧ g = rest ++ "/" ++ f := by
  have hslash : "/".toList = ['/'] := rfl
  simp only [← String.toList_inj, String.toList_append, hslash, List.append_assoc,
    List.singleton_append]
  constructor
  · intro h
    -- The longer of the first parts begins with the shorter one and goes on with a slash.
    rcases List.append_eq_append_iff.1 h with ⟨between, hb, hf⟩ | ⟨between, ha, hg⟩
    · cases between with
      | nil =>
          have hsame : f.toList = g.toList := by simpa using hf
          exact Or.inl ⟨by simpa using hb.symm, hsame⟩
      | cons c rest =>
          rcases List.cons.inj hf with ⟨rfl, hrest⟩
          exact Or.inr (Or.inl ⟨String.ofList rest, by simpa using hb, by simpa using hrest⟩)
    · cases between with
      | nil =>
          have hsame : g.toList = f.toList := by simpa using hg
          exact Or.inl ⟨by simpa using ha, hsame.symm⟩
      | cons c rest =>
          rcases List.cons.inj hg with ⟨rfl, hrest⟩
          exact Or.inr (Or.inr ⟨String.ofList rest, by simpa using ha, by simpa using hrest⟩)
  · rintro (⟨hab, hfg⟩ | ⟨rest, hb, hf⟩ | ⟨rest, ha, hg⟩)
    · rw [hab, hfg]
    · simp [hb, hf]
    · simp [ha, hg]

/-! ## What is built -/

namespace Report

theorem artifacts_concat (reports : List Report) :
    (concat reports).artifacts = reports.flatMap (·.artifacts) := by
  induction reports with
  | nil =>
      rfl
  | cons first rest ih =>
      have hcons : concat (first :: rest) = first.append (concat rest) := rfl
      simp [hcons, append, ih]

end Report

namespace Project

variable {project : Project} {platform other : Platform} {config config' : BuildConfig}
  {report : Report}

/-- A project is valid when its pipeline is and no two platforms share a name. -/
theorem validate_eq_ok_iff :
    project.validate = .ok () ↔
      project.pipeline.validate = .ok () ∧ (project.platforms.map (·.name)).Nodup := by
  unfold validate
  cases hpipeline : project.pipeline.validate with
  | error e =>
      simp
  | ok u =>
      cases hrepeated : Sequence.firstRepeated? [] (project.platforms.map (·.name)) with
      | none =>
          simpa using (Sequence.firstRepeated?_eq_none_iff.1 hrepeated).2
      | some name =>
          have hnot : ¬ (project.platforms.map (·.name)).Nodup := by
            intro hnodup
            have hnone : Sequence.firstRepeated? [] (project.platforms.map (·.name)) = none :=
              Sequence.firstRepeated?_eq_none_iff.2 ⟨by simp, hnodup⟩
            rw [hrepeated] at hnone
            cases hnone
          simpa using hnot

/-- The file name of the output of a platform for a configuration. -/
def fileName (project : Project) (platform : Platform) (config : BuildConfig) : String :=
  FileName.forConfig platform.template config.name (decide (1 < project.buildConfigs.length))

/-- The names of the configurations tell them apart. -/
def DistinctNames (project : Project) : Prop :=
  ∀ config ∈ project.buildConfigs, ∀ config' ∈ project.buildConfigs,
    config.name = config'.name → config = config'

/-- The name of the inner platform leads into the folder of the outer one, to a place where both
write a file. -/
def Overlaps (project : Project) (outer inner : Platform) : Prop :=
  ∃ rest, inner.name = outer.name ++ "/" ++ rest ∧
    ∃ config ∈ project.buildConfigs, ∃ config' ∈ project.buildConfigs,
      project.fileName outer config = rest ++ "/" ++ project.fileName inner config'

/-- One file for each configuration and platform. -/
theorem map_bundlePath_buildAll (hone : ∀ platform ∈ project.platforms,
    platform.enabledOutputs.length = 1) (hbuild : project.buildAll = .ok report) :
    report.artifacts.map Artifact.bundlePath =
      (project.buildConfigs ×ˢ project.platforms).map fun target =>
        target.2.name ++ "/" ++ project.fileName target.2 target.1 := by
  have hreport : Report.concat (project.buildConfigs.map
      (project.buildConfig project.platforms (decide (1 < project.buildConfigs.length)))) =
        report := Except.ok.inj hbuild
  rw [← hreport, Report.artifacts_concat, List.map_flatMap]
  show _ = List.map _ (List.product _ _)
  rw [List.product, List.map_flatMap, List.flatMap_map]
  apply List.flatMap_congr
  intro config hconfig
  rw [List.map_map, buildConfig, List.map_flatMap]
  -- Each platform adds the path of its one file.
  have hsingle : ∀ platforms ⊆ project.platforms,
      (platforms.flatMap fun platform =>
        (platform.render (project.resolveConfig config).1 config.name
          (decide (1 < project.buildConfigs.length))).map Artifact.bundlePath) =
      platforms.map fun platform => platform.name ++ "/" ++ project.fileName platform config := by
    intro platforms hsub
    induction platforms with
    | nil =>
        rfl
    | cons first rest ih =>
        rcases List.cons_subset.1 hsub with ⟨hfirst, hrest⟩
        rw [List.flatMap_cons, Platform.map_bundlePath_render (hone first hfirst), ih hrest]
        rfl
  exact hsingle project.platforms (List.Subset.refl _)

/-! ## Files that overwrite one another -/

/-- A platform's file names tell two configs of a project apart as their own names do. -/
theorem fileName_eq_iff (hconfig : config ∈ project.buildConfigs)
    (hconfig' : config' ∈ project.buildConfigs) :
    project.fileName platform config = project.fileName platform config' ↔
      config.name = config'.name := by
  by_cases hseveral : 1 < project.buildConfigs.length
  · exact FileName.forConfig_inj (Or.inr (by simpa using hseveral))
  · -- With a single configuration there is nothing to tell apart.
    have hsame : config = config' := by
      rcases hlist : project.buildConfigs with _ | ⟨only, rest⟩
      · rw [hlist] at hconfig
        cases hconfig
      · have hrest : rest = [] := by
          apply List.eq_nil_of_length_eq_zero
          rw [hlist, List.length_cons] at hseveral
          omega
        rw [hlist, hrest, List.mem_singleton] at hconfig hconfig'
        rw [hconfig, hconfig']
    simp [hsame]

/-- No name leads into the folder of that name. -/
theorem not_overlaps_self : ¬ project.Overlaps platform platform := by
  rintro ⟨rest, hname, -⟩
  have hlength := congrArg String.length hname
  simp only [String.length_append] at hlength
  have hslash : "/".length = 1 := rfl
  omega

section

variable (hvalid : project.validate = .ok ())
  (hone : ∀ platform ∈ project.platforms, platform.enabledOutputs.length = 1)
  (hbuild : project.buildAll = .ok report)

include hvalid hone hbuild

/-- Configurations and platforms of an accepted project are listed once each, so that the paths are
distinct when no two targets share one. -/
theorem nodup_bundlePaths_iff :
    (report.artifacts.map Artifact.bundlePath).Nodup ↔
      ∀ config ∈ project.buildConfigs, ∀ platform ∈ project.platforms,
        ∀ config' ∈ project.buildConfigs, ∀ other ∈ project.platforms,
          platform.name ++ "/" ++ project.fileName platform config =
              other.name ++ "/" ++ project.fileName other config' →
            config = config' ∧ platform = other := by
  rcases validate_eq_ok_iff.1 hvalid with ⟨hpipeline, hplatforms⟩
  have haccepted : project.pipeline.Valid := Pipeline.validate_eq_ok_iff.1 hpipeline
  have hconfigs : project.buildConfigs.Nodup :=
    Pipeline.nodup_buildConfigs haccepted.keys haccepted.nodup_values
  have htargets : (project.buildConfigs ×ˢ project.platforms).Nodup :=
    hconfigs.product (List.Nodup.of_map _ hplatforms)
  rw [map_bundlePath_buildAll hone hbuild, List.nodup_map_iff_inj_on htargets]
  constructor
  · intro hinj config hconfig platform hplatform config' hconfig' other hother heq
    have hsame := hinj (config, platform) (List.mem_product.2 ⟨hconfig, hplatform⟩)
      (config', other) (List.mem_product.2 ⟨hconfig', hother⟩) heq
    exact Prod.mk.inj hsame
  · rintro hinj ⟨config, platform⟩ hmem ⟨config', other⟩ hmem' heq
    rcases List.mem_product.1 hmem with ⟨hconfig, hplatform⟩
    rcases List.mem_product.1 hmem' with ⟨hconfig', hother⟩
    rcases hinj config hconfig platform hplatform config' hconfig' other hother heq with
      ⟨rfl, rfl⟩
    rfl

/-- Distinct paths have distinct names of configs. -/
theorem distinctNames_of_nodup (h : (report.artifacts.map Artifact.bundlePath).Nodup)
    (hplatform : platform ∈ project.platforms) : project.DistinctNames := by
  intro config hconfig config' hconfig' hname
  have hfile := (@fileName_eq_iff _ platform _ _ hconfig hconfig').2 hname
  have hpath : platform.name ++ "/" ++ project.fileName platform config =
      platform.name ++ "/" ++ project.fileName platform config' := by rw [hfile]
  exact ((nodup_bundlePaths_iff hvalid hone hbuild).1 h config hconfig platform hplatform config'
    hconfig' platform hplatform hpath).1

/-- Where paths are distinct no two platforms overlap. -/
theorem not_overlaps_of_nodup (h : (report.artifacts.map Artifact.bundlePath).Nodup)
    (hplatform : platform ∈ project.platforms) (hother : other ∈ project.platforms) :
    ¬ project.Overlaps platform other := by
  intro hoverlaps
  have hrest := hoverlaps
  rcases hrest with ⟨rest, hname, config, hconfig, config', hconfig', hfile⟩
  have hpath := append_slash_eq_iff.2 (Or.inr (Or.inl ⟨rest, hname, hfile⟩))
  have hsame : platform = other := ((nodup_bundlePaths_iff hvalid hone hbuild).1 h config hconfig
    platform hplatform config' hconfig' other hother hpath).2
  exact not_overlaps_self (hsame ▸ hoverlaps)

/-- Paths are distinct when names are and platforms do not overlap. -/
theorem nodup_of_distinctNames (hnames : project.platforms = [] ∨ project.DistinctNames)
    (hapart : ∀ outer ∈ project.platforms, ∀ inner ∈ project.platforms,
      ¬ project.Overlaps outer inner) :
    (report.artifacts.map Artifact.bundlePath).Nodup := by
  apply (nodup_bundlePaths_iff hvalid hone hbuild).2
  intro config hconfig platform hplatform config' hconfig' other hother heq
  rcases append_slash_eq_iff.1 heq with ⟨hname, hfile⟩ | ⟨rest, hname, hfile⟩ |
    ⟨rest, hname, hfile⟩
  · -- In the folder of one platform only configurations of one name share a file.
    have hsame : platform = other :=
      List.inj_on_of_nodup_map (validate_eq_ok_iff.1 hvalid).2 hplatform hother hname
    subst hsame
    have hdistinct : project.DistinctNames := by
      apply hnames.resolve_left
      intro hnil
      rw [hnil] at hplatform
      cases hplatform
    have hconfigs := (fileName_eq_iff hconfig hconfig').1 hfile
    exact ⟨hdistinct config hconfig config' hconfig' hconfigs, rfl⟩
  · exact absurd ⟨rest, hname, config, hconfig, config', hconfig', hfile⟩
      (hapart platform hplatform other hother)
  · exact absurd ⟨rest, hname, config', hconfig', config, hconfig, hfile⟩
      (hapart other hother platform hplatform)

end

/-- Values without dashes are read off the name that joins them. -/
theorem distinctNames_of_dashless (h : ∀ v ∈ project.pipeline.variablesInUse,
    ∀ value ∈ v.values, '-' ∉ value.toList) : project.DistinctNames := by
  intro config hconfig config' hconfig' hname
  rcases List.mem_map.1 hconfig with ⟨pairs, hpairs, rfl⟩
  rcases List.mem_map.1 hconfig' with ⟨pairs', hpairs', rfl⟩
  -- Both choices have the keys of the variables, so that only their values can differ.
  have hkeys : pairs.map (·.1) = pairs'.map (·.1) :=
    (Variable.of_mem_choices hpairs).1.trans (Variable.of_mem_choices hpairs').1.symm
  have hdashless : ∀ {choice}, choice ∈ Sequence.choices
      (project.pipeline.variablesInUse.map Variable.axis) →
        ∀ value ∈ choice.map (·.2), '-' ∉ value.toList := by
    intro choice hchoice value hvalue
    rcases List.mem_map.1 hvalue with ⟨pair, hpair, rfl⟩
    rcases (Variable.of_mem_choices hchoice).2 pair hpair with ⟨v, hv, -, hvalue⟩
    exact h v hv pair.2 hvalue
  by_cases hnil : pairs = []
  · have hnil' : pairs' = [] := by simpa [hnil] using hkeys.symm
    rw [hnil, hnil']
  · have hnil' : pairs' ≠ [] := by
      rintro rfl
      exact hnil (by simpa using hkeys)
    have hjoined : Text.join "-" (pairs.map (·.2)) = Text.join "-" (pairs'.map (·.2)) := by
      simpa [BuildConfig.ofPairs, hnil, hnil'] using hname
    have hvalues : pairs.map (·.2) = pairs'.map (·.2) := by
      calc
        pairs.map (·.2)
            = Text.split '-' (Text.join "-" (pairs.map (·.2))) :=
              (Text.split_join rfl (hdashless hpairs) (by simpa using hnil)).symm
        _ = Text.split '-' (Text.join "-" (pairs'.map (·.2))) := by rw [hjoined]
        _ = pairs'.map (·.2) := Text.split_join rfl (hdashless hpairs') (by simpa using hnil')
    have hsame : pairs = pairs' := by
      rw [← List.zip_unzip pairs, ← List.zip_unzip pairs', List.unzip_eq_map, List.unzip_eq_map,
        hkeys, hvalues]
    rw [hsame]

theorem not_overlaps_of_slashless (h : '/' ∉ other.name.toList) :
    ¬ project.Overlaps platform other := by
  rintro ⟨rest, hname, -⟩
  apply h
  simp [hname]

/-- A full build of an accepted project in which every platform has one output writes every file to
a path of its own exactly when the names of the configurations tell them apart and the name of no
platform leads to a file of another. Values without dashes and platforms without slashes are enough
for that. -/
theorem distinctPaths_buildAll (hvalid : project.validate = .ok ())
    (hone : ∀ platform ∈ project.platforms, platform.enabledOutputs.length = 1)
    (hbuild : project.buildAll = .ok report) :
    ((report.artifacts.map Artifact.bundlePath).Nodup ↔
      (project.platforms = [] ∨ project.DistinctNames) ∧
        ∀ outer ∈ project.platforms, ∀ inner ∈ project.platforms,
          ¬ project.Overlaps outer inner) ∧
      ((∀ v ∈ project.pipeline.variablesInUse, ∀ value ∈ v.values, '-' ∉ value.toList) →
        (∀ platform ∈ project.platforms, '/' ∉ platform.name.toList) →
          (report.artifacts.map Artifact.bundlePath).Nodup) := by
  refine ⟨⟨?_, ?_⟩, ?_⟩
  · intro hnodup
    refine ⟨?_, fun outer houter inner hinner => ?_⟩
    · rcases hlist : project.platforms with _ | ⟨platform, rest⟩
      · exact Or.inl rfl
      · have hplatform : platform ∈ project.platforms := by simp [hlist]
        exact Or.inr (distinctNames_of_nodup hvalid hone hbuild hnodup hplatform)
    · exact not_overlaps_of_nodup hvalid hone hbuild hnodup houter hinner
  · rintro ⟨hnames, hapart⟩
    exact nodup_of_distinctNames hvalid hone hbuild hnames hapart
  · intro hdashless hslashless
    apply nodup_of_distinctNames hvalid hone hbuild
    · exact Or.inr (distinctNames_of_dashless hdashless)
    · intro outer _ inner hinner
      exact not_overlaps_of_slashless (hslashless inner hinner)

/-- A project for one platform whose one layer depends on two variables. -/
def twoVariables (sizes modes : List String) : Project where
  name := "Grid"
  pipeline :=
    { vars := [⟨⟨"var-size"⟩, "Size", "size", sizes⟩, ⟨⟨"var-mode"⟩, "Mode", "mode", modes⟩]
      layers := [⟨⟨"layer-theme"⟩, "Theme", 0, ["size", "mode"], false⟩]
      pages := [] }
  platforms := [Platform.preset "css"]

theorem distinctPaths_buildAll_plain :
    ∃ report, (twoVariables ["s", "m"] ["light", "dark"]).buildAll = .ok report ∧
      (report.artifacts.map Artifact.bundlePath).Nodup := by
  refine ⟨_, rfl, ?_⟩
  refine (distinctPaths_buildAll (by decide +kernel) (by decide +kernel) rfl).2 ?_ ?_
  · decide +kernel
  · decide +kernel

/-- The choices of `a` and `b-c` and of `a-b` and `c` are two configurations of one name. -/
theorem not_distinctPaths_buildAll_dashes :
    (twoVariables ["a", "a-b"] ["b-c", "c"]).validate = .ok () ∧
      (∀ platform ∈ (twoVariables ["a", "a-b"] ["b-c", "c"]).platforms,
        platform.enabledOutputs.length = 1) ∧
      ∃ report, (twoVariables ["a", "a-b"] ["b-c", "c"]).buildAll = .ok report ∧
        ¬ (report.artifacts.map Artifact.bundlePath).Nodup := by
  have hone : ∀ platform ∈ (twoVariables ["a", "a-b"] ["b-c", "c"]).platforms,
      platform.enabledOutputs.length = 1 := by
    decide +kernel
  refine ⟨by decide +kernel, hone, _, rfl, ?_⟩
  rw [map_bundlePath_buildAll hone rfl]
  decide +kernel

end Project
end DesignTokens
