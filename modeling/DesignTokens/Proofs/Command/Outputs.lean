import DesignTokens.Proofs.Command.Writing
import DesignTokens.Proofs.Project.Bundles

/-!
# What a build writes

Below a directory a build writes either nothing, when one of its files is refused, or every file at
its place, unless the file system fails. A bundle is begun before its files are looked at: the file
that it goes to is made or replaced even when one of them is refused, and it then holds those before
the first refused one.
-/

namespace DesignTokens

variable {artifacts before : List Artifact} {refused : Artifact}

def Artifact.outputPath (directory : String) (artifact : Artifact) : String :=
  UnixPath.join directory artifact.bundlePath

/-- A safe artifact goes to a place strictly below the folder of the outputs. -/
theorem Artifact.IsSafe.placeOf_outputPath {artifact : Artifact} (h : artifact.IsSafe)
    (files : FileSystem) (directory : String) :
    ∃ name below, files.placeOf (artifact.outputPath directory) =
      files.placeOf directory ++ name :: below := by
  rw [outputPath, FileSystem.placeOf_join h.relative]
  exact h.target_eq (files.placeOf directory)

namespace FileSystem

/-- The files of a build are below a directory, each at its path, and nothing else has changed. -/
structure Holds (artifacts : List Artifact) (directory : String) (files later : FileSystem) :
    Prop where
  written : Written (artifacts.map fun artifact =>
    (files.placeOf (artifact.outputPath directory), artifact.content)) files later
  located : ∀ artifact ∈ artifacts, later.locate (artifact.outputPath directory) =
    .ok (files.placeOf (artifact.outputPath directory))
  below : ∀ artifact ∈ artifacts, ∃ name below,
    files.placeOf (artifact.outputPath directory) = files.placeOf directory ++ name :: below

end FileSystem

namespace Command

/-- Safe artifacts are all written, each to its own place, or a file error stops the writing. -/
theorem perform_writeArtifacts (h : ∀ artifact ∈ artifacts, artifact.IsSafe) (directory : String)
    (session : Session) :
    (∃ e later, perform (writeArtifacts artifacts directory) session =
        (.error (.file e), { session with files := later })) ∨
      ∃ later, perform (writeArtifacts artifacts directory) session =
          (.ok (artifacts.map fun artifact => artifact.outputPath directory),
            { session with files := later }) ∧
        FileSystem.Holds artifacts directory session.files later := by
  have hpaths : perform (orFail (artifacts.mapM Artifact.path)) session =
      (.ok (artifacts.map Artifact.bundlePath), session) := by
    rw [perform_orFail, Artifact.mapM_path_of_isSafe h]
  have hzip : artifacts.zip (artifacts.map Artifact.bundlePath) =
      artifacts.map fun artifact => (artifact, artifact.bundlePath) := by
    have hmap := List.zip_map' (f := id) (g := Artifact.bundlePath) (l := artifacts)
    rwa [List.map_id] at hmap
  rw [writeArtifacts, perform_bind_of_ok hpaths, hzip]
  rcases perform_writeAll directory (artifacts.map fun artifact => (artifact, artifact.bundlePath))
      session with herror | ⟨later, hwritten, htexts, hplaces⟩
  · exact Or.inl herror
  · simp only [List.map_map, List.forall_mem_map] at hwritten htexts hplaces
    exact Or.inr ⟨later, hwritten, htexts, hplaces, fun artifact hmem =>
      (h artifact hmem).placeOf_outputPath session.files directory⟩

/-- One unsafe path refuses the whole list, and nothing has been written. -/
theorem perform_writeArtifacts_refused (hbefore : ∀ artifact ∈ before, artifact.IsSafe)
    (hrefused : ¬ refused.IsSafe) (after : List Artifact) (directory : String)
    (session : Session) :
    perform (writeArtifacts (before ++ refused :: after) directory) session =
      (.error (.unsafePath refused.bundlePath), session) := by
  apply perform_bind_of_error
  rw [perform_orFail, Artifact.mapM_path_refused hbefore hrefused]

/-- A bundle is written before it is answered whether its files are refused. -/
theorem perform_writeBundle (artifacts : List Artifact) (path : String) (session : Session) :
    ∃ made, session.files.Grows made ∧
      ((∃ e, perform (writeBundle artifacts path) session =
          (.error (.file e), { session with files := made })) ∨
        ∃ place, made.locate path = .ok place ∧
          perform (writeBundle artifacts path) session =
            (Bundle.outcome artifacts, { session with
              files := made.set place (.file (.archive (Bundle.archive artifacts))) })) := by
  rcases perform_write_bind path (.archive (Bundle.archive artifacts))
      (orFail (Bundle.outcome artifacts)) session with
    ⟨made, hmade, herror | ⟨place, -, hlocate, -, hwritten⟩⟩
  · exact ⟨made, hmade, Or.inl herror⟩
  · exact ⟨made, hmade, Or.inr ⟨place, hlocate, hwritten⟩⟩

/-- With a refused file nothing is written below a directory, and nothing of the session changes. A
bundle ends before the first such file, and it is written as far as it goes: its file is made or
replaced whenever the file system allows it. Without a refused file all files are written below the
directory in order, unless the file system fails. -/
theorem refuses_or_writes (artifacts : List Artifact) (directory path : String)
    (session : Session) :
    ((∃ artifact ∈ artifacts, ¬ artifact.IsSafe) →
      ∃ before refused after, artifacts = before ++ refused :: after ∧
        (∀ artifact ∈ before, artifact.IsSafe) ∧ ¬ refused.IsSafe ∧
        perform (writeArtifacts artifacts directory) session =
          (.error (.unsafePath refused.bundlePath), session) ∧
        Bundle.EndsBefore artifacts before refused ∧
        ((∀ artifact ∈ before, '\x00' ∉ artifact.bundlePath.toList) →
          Bundle.outcome artifacts = .error (.unsafePath refused.bundlePath) ∧
            (Bundle.archive artifacts).contents = before.map (·.content)) ∧
        ∃ made, session.files.Grows made ∧
          ((∃ e, perform (writeBundle artifacts path) session =
              (.error (.file e), { session with files := made })) ∨
            ∃ place, made.locate path = .ok place ∧
              perform (writeBundle artifacts path) session =
                (Bundle.outcome artifacts, { session with
                  files := made.set place (.file (.archive (Bundle.archive artifacts))) }))) ∧
    ((∀ artifact ∈ artifacts, artifact.IsSafe) →
      (∃ e later, perform (writeArtifacts artifacts directory) session =
          (.error (.file e), { session with files := later })) ∨
        ∃ later, perform (writeArtifacts artifacts directory) session =
            (.ok (artifacts.map fun artifact => artifact.outputPath directory),
              { session with files := later }) ∧
          FileSystem.Holds artifacts directory session.files later) := by
  refine ⟨?_, fun hsafe => perform_writeArtifacts hsafe directory session⟩
  intro hexists
  rcases Artifact.exists_first_refused hexists with
    ⟨before, refused, after, rfl, hbefore, hrefused⟩
  have hends := Bundle.endsBefore hrefused before after
  refine ⟨before, refused, after, rfl, hbefore, hrefused,
    perform_writeArtifacts_refused hbefore hrefused after directory session, hends, ?_,
    perform_writeBundle _ path session⟩
  intro hzero
  rcases Bundle.contents_archive hbefore hzero with ⟨houtcome, hcontents⟩
  refine ⟨?_, hends.archive ▸ hcontents⟩
  rw [hends.outcome, houtcome]
  rfl

def sheetArtifact : Artifact where
  platform := "web"
  config := "light"
  fileName := "tokens.css"
  format := .cssVariables
  content := "light"

def darkArtifact : Artifact := { sheetArtifact with config := "dark", content := "dark" }

def escapingArtifact : Artifact := { sheetArtifact with fileName := "../tokens.css" }

def bundleSession : Session where
  files := .ofTexts ["work"] [("tokens.tar.gz", "kept")]

theorem refuses_or_writes_sheets :
    ¬ escapingArtifact.IsSafe ∧
      perform (writeArtifacts [sheetArtifact, escapingArtifact, darkArtifact] "out") bundleSession =
        (.error (.unsafePath "web/../tokens.css"), bundleSession) ∧
      (Bundle.archive [sheetArtifact, escapingArtifact, darkArtifact]).contents = ["light"] ∧
      ∃ later, perform (writeArtifacts [sheetArtifact, darkArtifact] "out") bundleSession =
          (.ok ["out/web/tokens.css", "out/web/tokens.css"],
            { bundleSession with files := later }) ∧
        FileSystem.Holds [sheetArtifact, darkArtifact] "out" bundleSession.files later ∧
        later.readText "out/web/tokens.css" = .ok "dark" := by
  have hsheet : sheetArtifact.IsSafe := by decide +kernel
  have hdark : darkArtifact.IsSafe := by decide +kernel
  have hescaping : ¬ escapingArtifact.IsSafe := by decide +kernel
  refine ⟨hescaping, ?_⟩
  have hrefusal := (refuses_or_writes [sheetArtifact, escapingArtifact, darkArtifact] "out"
    "tokens.tar.gz" bundleSession).1 ⟨escapingArtifact, by simp, hescaping⟩
  have hwriting := (refuses_or_writes [sheetArtifact, darkArtifact] "out" "tokens.tar.gz"
    bundleSession).2 (by simp [hsheet, hdark])
  rcases hrefusal with ⟨before, refused, after, hsplit, hbefore, hrefused, hkept, -, hcut, -⟩
  have hfirst : before = [sheetArtifact] ∧ refused = escapingArtifact := by
    rcases before with _ | ⟨first, _ | ⟨second, rest⟩⟩
    · -- The first file is not the refused one.
      simp only [List.nil_append, List.cons.injEq] at hsplit
      exact absurd (hsplit.1 ▸ hsheet) hrefused
    · simp only [List.cons_append, List.nil_append, List.cons.injEq] at hsplit
      exact ⟨by rw [hsplit.1], hsplit.2.1.symm⟩
    · simp only [List.cons_append, List.cons.injEq] at hsplit
      exact absurd (hbefore second (by simp)) (hsplit.2.1 ▸ hescaping)
  rcases hfirst with ⟨rfl, rfl⟩
  refine ⟨hkept, (hcut (by decide +kernel)).2, ?_⟩
  have hanswer : (perform (writeArtifacts [sheetArtifact, darkArtifact] "out")
    bundleSession).1.toBool = true := by decide +kernel
  have htext : (perform (writeArtifacts [sheetArtifact, darkArtifact] "out")
    bundleSession).2.files.readText "out/web/tokens.css" = .ok "dark" := by decide +kernel
  rcases hwriting with ⟨e, later, herror⟩ | ⟨later, hwritten, hholds⟩
  · rw [herror] at hanswer
    cases hanswer
  · rw [hwritten] at htext
    exact ⟨later, hwritten, hholds, htext⟩

/-- A refused file leaves its mark: the bundle replaces what was at its path. -/
theorem not_kept_writeBundle_escaping :
    ¬ ∀ (artifacts : List Artifact) (path : String) (session : Session),
      (∃ artifact ∈ artifacts, ¬ artifact.IsSafe) →
        ∃ refused, perform (writeBundle artifacts path) session =
          (.error (.unsafePath refused), session) := by
  intro h
  rcases h [escapingArtifact] "tokens.tar.gz" bundleSession
    ⟨escapingArtifact, List.mem_singleton.2 rfl, by decide +kernel⟩ with ⟨path, hsame⟩
  have hchanged : (perform (writeBundle [escapingArtifact] "tokens.tar.gz") bundleSession).2 ≠
    bundleSession := by decide +kernel
  exact hchanged (congrArg Prod.snd hsame)

end Command
end DesignTokens
