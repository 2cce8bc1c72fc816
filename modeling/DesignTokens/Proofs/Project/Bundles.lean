import DesignTokens.Project.Bundle
import DesignTokens.Proofs.Archive.Names
import DesignTokens.Proofs.Project.BundlePaths

/-!
# Files in bundles

The paths of files are checked one by one while the files go into a bundle. A bundle with a refused
file is therefore that of the files before it, and the refusal is what is answered as long as these
files go into the archive.
-/

namespace DesignTokens

variable {artifacts before after : List Artifact} {artifact refused : Artifact}

namespace Artifact

/-! ## Paths of several files -/

/-- The first refused file among several. -/
theorem exists_first_refused (h : ∃ artifact ∈ artifacts, ¬ artifact.IsSafe) :
    ∃ before refused after, artifacts = before ++ refused :: after ∧
      (∀ artifact ∈ before, artifact.IsSafe) ∧ ¬ refused.IsSafe := by
  have hfound : (artifacts.find? fun artifact => ¬ artifact.IsSafe).isSome = true := by
    simpa [List.find?_isSome] using h
  rcases Option.isSome_iff_exists.1 hfound with ⟨refused, hfirst⟩
  rcases List.find?_eq_some_iff_append.1 hfirst with ⟨hrefused, before, after, hsplit, hbefore⟩
  exact ⟨before, refused, after, hsplit, by simpa using hbefore, by simpa using hrefused⟩

/-- Safe artifacts have their paths, in order. -/
theorem mapM_path_of_isSafe (h : ∀ artifact ∈ artifacts, artifact.IsSafe) :
    artifacts.mapM path = .ok (artifacts.map bundlePath) := by
  induction artifacts with
  | nil =>
      rfl
  | cons artifact rest ih =>
      rcases List.forall_mem_cons.1 h with ⟨hfirst, hrest⟩
      rw [List.mapM_cons, path_of_isSafe hfirst, ih hrest]
      rfl

/-- The first unsafe artifact decides over the paths of all. -/
theorem mapM_path_refused (hbefore : ∀ artifact ∈ before, artifact.IsSafe)
    (hrefused : ¬ refused.IsSafe) (after : List Artifact) :
    (before ++ refused :: after).mapM path = .error (.unsafePath refused.bundlePath) := by
  rw [List.mapM_append, mapM_path_of_isSafe hbefore, List.mapM_cons, path_of_not_isSafe hrefused]
  rfl

end Artifact

namespace Bundle

variable {archive later : Tar.Archive}

/-! ## Runs -/

/-- An unsafe artifact is not put into the archive. -/
theorem run_add_of_not_isSafe (h : ¬ artifact.IsSafe) (archive : Tar.Archive) :
    (add artifact).run archive = .error (.unsafePath artifact.bundlePath) archive := by
  unfold add
  rw [Artifact.path_of_not_isSafe h]
  rfl

/-- An artifact is put into the archive when it is safe and the archive takes it. -/
theorem run_add_eq_ok_iff {u : Unit} :
    (add artifact).run archive = .ok u later ↔
      artifact.IsSafe ∧
        (Tar.Archive.append artifact.bundlePath artifact.content).run archive = .ok u later := by
  unfold add
  constructor
  · intro h
    rcases Edit.run_bind_eq_ok.1 h with ⟨path, _, hcheck, h⟩
    rcases Edit.run_check_eq_ok.1 hcheck with ⟨hpath, rfl⟩
    rcases Artifact.path_eq_ok_iff.1 hpath with ⟨hsafe, rfl⟩
    rcases Edit.run_onPart_eq_ok.1 h with ⟨_, happend, rfl⟩
    exact ⟨hsafe, happend⟩
  · rintro ⟨hsafe, happend⟩
    refine Edit.run_bind_eq_ok.2 ⟨artifact.bundlePath, archive, ?_, ?_⟩
    · exact Edit.run_check_eq_ok.2 ⟨Artifact.path_of_isSafe hsafe, rfl⟩
    · exact Edit.run_onPart_eq_ok.2 ⟨later, happend, rfl⟩

theorem addAll_append (before after : List Artifact) :
    addAll (before ++ after) = (do addAll before; addAll after) := by
  induction before with
  | nil =>
      rfl
  | cons artifact rest ih =>
      simp only [List.cons_append, addAll, ih, bind_assoc]

/-- Files that all go into a bundle are there with their contents in order. -/
theorem contents_of_run_addAll {u : Unit} (h : (addAll artifacts).run archive = .ok u later) :
    later.contents = archive.contents ++ artifacts.map (·.content) := by
  induction artifacts generalizing archive with
  | nil =>
      rw [(Edit.run_pure_eq_ok.1 h).2]
      simp
  | cons artifact rest ih =>
      rcases Edit.run_bind_eq_ok.1 h with ⟨_, middle, hadd, hrest⟩
      have hfirst := Tar.Archive.contents_of_run_append (run_add_eq_ok_iff.1 hadd).2
      rw [ih hrest, hfirst]
      simp

/-- Safe files without zero characters in their paths all go into a bundle. -/
theorem exists_run_addAll (hsafe : ∀ artifact ∈ artifacts, artifact.IsSafe)
    (hzero : ∀ artifact ∈ artifacts, '\x00' ∉ artifact.bundlePath.toList)
    (archive : Tar.Archive) : ∃ later, (addAll artifacts).run archive = .ok () later := by
  induction artifacts generalizing archive with
  | nil =>
      exact ⟨archive, rfl⟩
  | cons artifact rest ih =>
      simp only [List.forall_mem_cons] at hsafe hzero
      rcases Tar.Archive.exists_run_append hzero.1 artifact.content archive with
        ⟨middle, happend⟩
      rcases ih hsafe.2 hzero.2 middle with ⟨later, hrest⟩
      have hadd := run_add_eq_ok_iff.2 ⟨hsafe.1, happend⟩
      exact ⟨later, Edit.run_bind_eq_ok.2 ⟨(), middle, hadd, hrest⟩⟩

/-- A bundle is cut off at a refused file, whatever comes after that. -/
theorem run_addAll_refused (hrefused : ¬ refused.IsSafe) (before after : List Artifact)
    (archive : Tar.Archive) :
    (addAll (before ++ refused :: after)).run archive =
      match (addAll before).run archive with
      | .ok _ later => .error (.unsafePath refused.bundlePath) later
      | .error e later => .error e later := by
  rw [addAll_append]
  -- The refused file is only met when the files before it went in.
  cases hrun : (addAll before).run archive with
  | ok u middle =>
      have hadd := run_add_of_not_isSafe hrefused middle
      have hrest : (addAll (refused :: after)).run middle =
        .error (.unsafePath refused.bundlePath) middle := Edit.run_bind_eq_error.2 (Or.inl hadd)
      exact Edit.run_bind_eq_error.2 (Or.inr ⟨u, middle, hrun, hrest⟩)
  | error e middle =>
      exact Edit.run_bind_eq_error.2 (Or.inl hrun)

/-! ## Bundles with a refused file -/

structure EndsBefore (artifacts before : List Artifact) (refused : Artifact) : Prop where
  archive : Bundle.archive artifacts = Bundle.archive before
  outcome : Bundle.outcome artifacts = do
    Bundle.outcome before
    throw (.unsafePath refused.bundlePath)

/-- A bundle ends before the first unsafe artifact. -/
theorem endsBefore (hrefused : ¬ refused.IsSafe) (before after : List Artifact) :
    EndsBefore (before ++ refused :: after) before refused := by
  have hrun := run_addAll_refused hrefused before after .empty
  constructor
  · simp only [Bundle.archive, Edit.stateAfter, hrun]
    cases (addAll before).run .empty <;> rfl
  · simp only [Bundle.outcome, Edit.result, hrun]
    cases (addAll before).run .empty <;> rfl

/-- Safe files without zero characters in their paths make up the whole bundle. -/
theorem contents_archive (hsafe : ∀ artifact ∈ artifacts, artifact.IsSafe)
    (hzero : ∀ artifact ∈ artifacts, '\x00' ∉ artifact.bundlePath.toList) :
    Bundle.outcome artifacts = .ok () ∧
      (Bundle.archive artifacts).contents = artifacts.map (·.content) := by
  rcases exists_run_addAll hsafe hzero .empty with ⟨later, hrun⟩
  have hcontents := contents_of_run_addAll hrun
  constructor
  · simp only [Bundle.outcome, Edit.result, hrun]
  · rw [Bundle.archive, Edit.stateAfter_of_ok hrun, hcontents]
    rfl

end Bundle
end DesignTokens
