import DesignTokens.Command.Run
import DesignTokens.Proofs.File.Changes
import DesignTokens.Proofs.Sequence

/-!
# Files written on a session

A session changes in its files only while directories are made and files are written. Making the
directories around a path adds directories, whether or not it succeeds in the end; writing sets one
file. When several texts are written one after another without a refusal, each place has the last
text that was written there, and apart from these places only directories are new.
-/

namespace DesignTokens

/-! ## Places of paths -/

namespace FileSystem

variable {files later made : FileSystem} {path directory relative : String} {place : Location}
  {text : String} {writes : List (Location × String)}

/-- The place that a path leads to if it can be followed. -/
def placeOf (files : FileSystem) (path : String) : Location :=
  UnixPath.target (files.start path) (UnixPath.parts path)

theorem eq_placeOf_of_locate (h : files.locate path = .ok place) : place = files.placeOf path :=
  eq_target_of_walk (locate_eq_ok_iff.1 h).2

theorem Sustains.placeOf (h : files.Sustains later) (path : String) :
    later.placeOf path = files.placeOf path := by
  simp [FileSystem.placeOf, start, h.workingDirectory]

/-- Where a path starts is settled by its first part. -/
theorem start_append (hdirectory : directory ≠ "") (files : FileSystem) (rest : String) :
    files.start (directory ++ rest) = files.start directory := by
  have hsame : Text.startsWith (directory ++ rest) "/" = Text.startsWith directory "/" := by
    cases htext : directory.toList with
    | nil =>
        exact absurd (String.toList_eq_nil_iff.1 htext) hdirectory
    | cons c text =>
        simp [Text.startsWith, htext, List.isPrefixOf]
  simp only [start, hsame]

/-- A path below a folder leads on from the folder's place. -/
theorem placeOf_append_slash (hdirectory : directory ≠ "") (files : FileSystem)
    (relative : String) :
    files.placeOf (directory ++ "/" ++ relative) =
      UnixPath.target (files.placeOf directory) (UnixPath.parts relative) := by
  rw [placeOf, UnixPath.parts_append_slash, UnixPath.target, List.foldl_append,
    String.append_assoc, start_append hdirectory]
  rfl

/-- A relative path goes on from the place of its directory. -/
theorem placeOf_join (hrelative : relative.toList.head? ≠ some '/') (files : FileSystem)
    (directory : String) :
    files.placeOf (UnixPath.join directory relative) =
      UnixPath.target (files.placeOf directory) (UnixPath.parts relative) := by
  by_cases hempty : directory = ""
  · -- A relative path starts in the working directory.
    have hstart : Text.startsWith relative "/" = false := by
      cases htext : relative.toList with
      | nil =>
          simp [Text.startsWith, htext]
      | cons c text =>
          have hc : '/' ≠ c := by simpa [htext, eq_comm] using hrelative
          simp [Text.startsWith, htext, List.isPrefixOf, hc]
    simp only [hempty, UnixPath.join, true_or, if_true, String.empty_append, placeOf, start, hstart]
    rfl
  · by_cases hslash : directory.toList.getLast? = some '/'
    · -- The empty part after the slash at the end leads nowhere.
      rcases UnixPath.exists_parts_of_slash hslash with ⟨front, hfront, hparts⟩
      have hjoined : UnixPath.parts (directory ++ relative) =
          UnixPath.parts front ++ UnixPath.parts relative := by
        rw [hfront, UnixPath.parts_append_slash]
      rw [UnixPath.join, if_pos (Or.inr hslash)]
      simp only [placeOf, start_append hempty, hjoined, hparts, UnixPath.target,
        List.foldl_append]
      rfl
    · -- Otherwise a slash is put in between.
      rw [UnixPath.join, if_neg (by simp [hempty, hslash])]
      exact placeOf_append_slash hempty files relative

def lastAt? (writes : List (Location × String)) (place : Location) : Option String :=
  Sequence.lastSome? (fun write : Location × String =>
    if write.1 = place then some write.2 else none) writes

/-- Texts were written at places, one after another, and directories were made for them. -/
structure Written (writes : List (Location × String)) (files later : FileSystem) : Prop where
  sustains : files.Sustains later
  written : ∀ place text, lastAt? writes place = some text →
    later.node? place = some (.file (.text text))
  kept : ∀ place node, lastAt? writes place = none → files.node? place = some node →
    later.node? place = some node
  added : ∀ place, lastAt? writes place = none → files.node? place = none →
    later.node? place = none ∨ later.node? place = some .directory

theorem written_nil (files : FileSystem) : Written [] files files :=
  ⟨.refl files, nofun, fun _ _ _ h => h, fun _ _ h => Or.inl h⟩

/-- A later write of the same file hides an earlier one. -/
theorem lastAt?_cons (place : Location) (text : String) (writes : List (Location × String))
    (other : Location) :
    lastAt? ((place, text) :: writes) other =
      (lastAt? writes other).or (if place = other then some text else none) :=
  Sequence.lastSome?_cons _ _ _

/-- A text is written in a file system that has grown, and others after it. -/
theorem Written.cons (hmade : files.Grows made) (hplace : place ≠ [])
    (hfile : made.node? place ≠ some .directory)
    (hrest : Written writes (made.set place (.file (.text text))) later) :
    Written ((place, text) :: writes) files later where
  sustains := hmade.sustains.trans ((sustains_set_file hplace hfile _).trans hrest.sustains)
  written := by
    intro other last hlast
    rw [lastAt?_cons] at hlast
    cases hlater : lastAt? writes other with
    | some found =>
        rw [hlater] at hlast
        exact hrest.written other last (hlater.trans hlast)
    | none =>
        -- The first text is the last one at its place.
        rw [hlater, Option.none_or] at hlast
        have hsame : place = other := by
          by_contra hne
          simp [hne] at hlast
        have htext : text = last := by simpa [hsame] using hlast
        refine hrest.kept other _ hlater ?_
        rw [node?_set hplace, if_pos hsame.symm, htext]
  kept := by
    intro other node hnone hnode
    rw [lastAt?_cons, Option.or_eq_none_iff] at hnone
    have hne : other ≠ place := by
      rintro rfl
      simp at hnone
    refine hrest.kept other node hnone.1 ?_
    rw [node?_set hplace, if_neg hne]
    exact hmade.kept other node hnode
  added := by
    intro other hnone hother
    rw [lastAt?_cons, Option.or_eq_none_iff] at hnone
    have hne : other ≠ place := by
      rintro rfl
      simp at hnone
    have hset : (made.set place (.file (.text text))).node? other = made.node? other := by
      rw [node?_set hplace, if_neg hne]
    rcases hmade.added other hother with hmade | hmade
    · exact hrest.added other hnone.1 (hset.trans hmade)
    · exact Or.inr (hrest.kept other _ hnone.1 (hset.trans hmade))

end FileSystem

/-! ## Actions on a session -/

namespace Session

variable {α β : Type}

/-- At most directories come to the files of a session, and nothing else of it changes. -/
def Enlarges (action : StateM Session α) : Prop :=
  ∀ session : Session, ∃ made, session.files.Grows made ∧
    (action.run session).2 = { session with files := made }

theorem enlarges_pure (a : α) : Enlarges (pure a : StateM Session α) :=
  fun session => ⟨session.files, .refl _, rfl⟩

/-- Steps that only add folders stay so one after the other. -/
theorem Enlarges.bind {action : StateM Session α} {next : α → StateM Session β}
    (h : Enlarges action) (hnext : ∀ a, Enlarges (next a)) : Enlarges (action >>= next) := by
  intro session
  rcases h session with ⟨made, hmade, hsession⟩
  rcases hnext (action.run session).1 { session with files := made } with
    ⟨later, hlater, hrest⟩
  refine ⟨later, hmade.trans hlater, ?_⟩
  calc
    ((action >>= next).run session).2
        = ((next (action.run session).1).run (action.run session).2).2 := rfl
    _ = { session with files := later } := by rw [hsession, hrest]

/-- An accepted edit of the files, as a step of the host. -/
theorem run_onFiles_of_ok {edit : Edit FileError FileSystem α} {session : Session} {a : α}
    {later : FileSystem} (h : edit.run session.files = .ok a later) :
    (onFiles edit).run session = (.ok a, { session with files := later }) := by
  simp only [onFiles, StateT.run, h]

/-- A refused edit of the files, as a step of the host. -/
theorem run_onFiles_of_error {edit : Edit FileError FileSystem α} {session : Session}
    {e : FileError} {later : FileSystem} (h : edit.run session.files = .error e later) :
    (onFiles edit).run session = (.error e, { session with files := later }) := by
  simp only [onFiles, StateT.run, h]

theorem enlarges_onFiles {edit : Edit FileError FileSystem α}
    (h : Edit.Keeps FileSystem.Grows edit) : Enlarges (onFiles edit) := by
  intro session
  refine ⟨edit.stateAfter session.files, h session.files, ?_⟩
  cases hrun : edit.run session.files with
  | ok a later =>
      rw [run_onFiles_of_ok hrun, Edit.stateAfter_of_ok hrun]
  | error e later =>
      rw [run_onFiles_of_error hrun, Edit.stateAfter_of_error hrun]

theorem enlarges_makeDirectory (path : String) :
    Enlarges (Host.makeDirectory path : StateM Session _) :=
  enlarges_onFiles (FileSystem.keeps_makeDirectory path)

theorem enlarges_isDirectory (path : String) :
    Enlarges (Host.isDirectory path : StateM Session _) :=
  fun session => ⟨session.files, .refl _, rfl⟩

theorem enlarges_ensureDirectory (path : String) :
    Enlarges (Command.ensureDirectory path : StateM Session _) := by
  refine (enlarges_makeDirectory path).bind fun outcome => ?_
  cases outcome with
  | ok u =>
      exact enlarges_pure _
  | error e =>
      exact (enlarges_isDirectory path).bind fun _ => enlarges_pure _

theorem enlarges_makeDirectories (paths : List String) :
    Enlarges (Command.makeDirectories paths : StateM Session _) := by
  induction paths with
  | nil =>
      exact enlarges_pure _
  | cons path around ih =>
      refine (enlarges_ensureDirectory path).bind fun outcome => ?_
      -- The directories around are only made where one of them is missing.
      split
      · refine ih.bind fun outcome => ?_
        split
        · exact enlarges_ensureDirectory path
        · exact enlarges_pure _
      · exact enlarges_pure _

end Session

/-! ## Actions of commands -/

namespace Command

variable {α β : Type} {session later : Session}

/-- What an action answers on a session, and the session after it. -/
def perform (action : Action (StateM Session) α) (session : Session) :
    Except ProjectError α × Session :=
  action.run.run session

@[simp] theorem perform_orFail (answer : Except ProjectError α) (session : Session) :
    perform (orFail answer) session = (answer, session) := rfl

/-- Performing two actions of which the first succeeds. -/
theorem perform_bind_of_ok {action : Action (StateM Session) α}
    {next : α → Action (StateM Session) β} {a : α} (h : perform action session = (.ok a, later)) :
    perform (action >>= next) session = perform (next a) later := by
  unfold perform at h ⊢
  simp only [ExceptT.run_bind, StateT.run_bind, h]
  rfl

/-- Performing two actions of which the first fails: the second is not tried. -/
theorem perform_bind_of_error {action : Action (StateM Session) α}
    {next : α → Action (StateM Session) β} {e : ProjectError}
    (h : perform action session = (.error e, later)) :
    perform (action >>= next) session = (.error e, later) := by
  unfold perform at h ⊢
  simp only [ExceptT.run_bind, StateT.run_bind, h]
  rfl

theorem perform_useFiles (use : StateM Session (Except FileError α)) (session : Session) :
    perform (useFiles use) session =
      ((use.run session).1.mapError .file, (use.run session).2) := rfl

/-- An action on the files succeeds or fails with a file error, and the session is what the action
leaves. -/
theorem perform_useFiles_cases (use : StateM Session (Except FileError α)) (session : Session) :
    (∃ a, perform (useFiles use) session = (.ok a, (use.run session).2)) ∨
      ∃ e, perform (useFiles use) session = (.error (.file e), (use.run session).2) := by
  rw [perform_useFiles]
  cases (use.run session).1 with
  | ok a =>
      exact Or.inl ⟨a, rfl⟩
  | error e =>
      exact Or.inr ⟨e, rfl⟩

/-- Making the folders above a path only adds folders, whether or not it succeeds. -/
theorem perform_makeParents_cases (path : String) (session : Session) :
    ∃ made, session.files.Grows made ∧
      (perform (makeParents path) session = (.ok (), { session with files := made }) ∨
        ∃ e, perform (makeParents path) session =
          (.error (.file e), { session with files := made })) := by
  rcases Session.enlarges_makeDirectories (UnixPath.parents path) session with
    ⟨made, hmade, hsession⟩
  refine ⟨made, hmade, ?_⟩
  have hcases := perform_useFiles_cases (makeDirectories (UnixPath.parents path)) session
  rw [hsession] at hcases
  rcases hcases with ⟨_, hok⟩ | herror
  · exact Or.inl hok
  · exact Or.inr herror

/-- A write that fails leaves the session as it was, and one that succeeds sets a single file. -/
theorem perform_write_cases (path : String) (content : FileContent) (session : Session) :
    (∃ e, perform (useFiles (Host.write path content)) session = (.error (.file e), session)) ∨
      ∃ place, perform (useFiles (Host.write path content)) session =
          (.ok (), { session with files := session.files.set place (.file content) }) ∧
        place ≠ [] ∧ session.files.locate path = .ok place ∧
          session.files.node? place ≠ some .directory := by
  have hperform := perform_useFiles (Session.onFiles (FileSystem.write path content)) session
  rcases FileSystem.run_write_cases path content session.files with
    ⟨e, hrun⟩ | ⟨place, hrun, hplace⟩
  · rw [Session.run_onFiles_of_error hrun] at hperform
    exact Or.inl ⟨e, hperform⟩
  · rw [Session.run_onFiles_of_ok hrun] at hperform
    exact Or.inr ⟨place, hperform, hplace⟩

/-- Directories are made around a path and a file is written there before the rest goes on, or an
error of the file system ends it all. -/
theorem perform_write_bind (path : String) (content : FileContent)
    (rest : Action (StateM Session) α) (session : Session) :
    ∃ made, session.files.Grows made ∧
      ((∃ e, perform (do makeParents path; useFiles (Host.write path content); rest) session =
          (.error (.file e), { session with files := made })) ∨
        ∃ place, place ≠ [] ∧ made.locate path = .ok place ∧
          made.node? place ≠ some .directory ∧
          perform (do makeParents path; useFiles (Host.write path content); rest) session =
            perform rest { session with files := made.set place (.file content) }) := by
  rcases perform_makeParents_cases path session with ⟨made, hmade, hparents | ⟨e, hparents⟩⟩
  · refine ⟨made, hmade, ?_⟩
    rw [perform_bind_of_ok hparents]
    rcases perform_write_cases path content { session with files := made } with
      ⟨e, hwrite⟩ | ⟨place, hwrite, hplace, hlocate, hfile⟩
    · exact Or.inl ⟨e, perform_bind_of_error hwrite⟩
    · exact Or.inr ⟨place, hplace, hlocate, hfile, perform_bind_of_ok hwrite⟩
  · exact ⟨made, hmade, Or.inl ⟨e, perform_bind_of_error hparents⟩⟩

/-- Writing files one after another ends with an error of the file system, or each file is at the
place of its path with the text that was written there last. -/
theorem perform_writeAll (directory : String) (files : List (Artifact × String))
    (session : Session) :
    (∃ e later, perform (writeAll directory files) session =
        (.error (.file e), { session with files := later })) ∨
      ∃ later, perform (writeAll directory files) session =
          (.ok (files.map fun file => UnixPath.join directory file.2),
            { session with files := later }) ∧
        FileSystem.Written (files.map fun file =>
            (session.files.placeOf (UnixPath.join directory file.2), file.1.content))
          session.files later ∧
        ∀ file ∈ files, later.locate (UnixPath.join directory file.2) =
          .ok (session.files.placeOf (UnixPath.join directory file.2)) := by
  -- The files after the first are written on a session where its text is there.
  induction files generalizing session with
  | nil =>
      exact Or.inr ⟨session.files, rfl, FileSystem.written_nil _, nofun⟩
  | cons file files ih =>
      rcases file with ⟨artifact, relative⟩
      rcases perform_write_bind (UnixPath.join directory relative) (.text artifact.content)
          (do return UnixPath.join directory relative :: (← writeAll directory files)) session with
        ⟨made, hmade, ⟨e, herror⟩ | ⟨place, hplace, hlocate, hfile, hfirst⟩⟩
      · exact Or.inl ⟨e, made, herror⟩
      · have hwritten : session.files.Sustains (made.set place (.file (.text artifact.content))) :=
          hmade.sustains.trans (FileSystem.sustains_set_file hplace hfile _)
        have hsame : place = session.files.placeOf (UnixPath.join directory relative) :=
          (FileSystem.eq_placeOf_of_locate hlocate).trans (hmade.sustains.placeOf _)
        rcases ih { session with files := made.set place (.file (.text artifact.content)) } with
          ⟨e, later, hrest⟩ | ⟨later, hrest, htexts, hplaces⟩
        · exact Or.inl ⟨e, later, hfirst.trans (perform_bind_of_error hrest)⟩
        · simp only [hwritten.placeOf] at htexts hplaces
          refine Or.inr ⟨later, hfirst.trans (perform_bind_of_ok hrest), ?_, ?_⟩
          · rw [List.map_cons, ← hsame]
            exact FileSystem.Written.cons hmade hplace hfile htexts
          · intro file hmem
            rcases List.mem_cons.1 hmem with rfl | hmem
            · rw [← hsame]
              -- The first path leads to its place whatever is written later.
              have hstill := (FileSystem.sustains_set_file hplace hfile _).trans htexts.sustains
              exact hstill.locate hlocate
            · exact hplaces file hmem

end Command
end DesignTokens
