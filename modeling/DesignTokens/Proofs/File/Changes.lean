import DesignTokens.Proofs.Edit
import DesignTokens.Proofs.File.UnixPath

/-!
# What changes in a file system

Writing a file and making a directory set one entry or are refused and change nothing. Neither ever
takes a directory away, so that a path that can be followed leads to the same place later on.
-/

namespace DesignTokens
namespace FileSystem

variable {files later last : FileSystem} {place other : Location} {node : FileNode}
  {path part name : String} {parts : List String} {content : FileContent}

/-! ## Entries -/

@[simp] theorem node?_root (files : FileSystem) : files.node? [] = some .directory := rfl

/-- After a node is set, its place holds it and every other place is as before. -/
theorem node?_set (hplace : place ≠ []) (files : FileSystem) (node : FileNode)
    (other : Location) :
    (files.set place node).node? other =
      if other = place then some node else files.node? other := by
  by_cases hroot : other = []
  · have hne : [] ≠ place := Ne.symm hplace
    simp [hroot, hne]
  · by_cases hother : other = place
    · simp [node?, set, hplace, hother]
    · have hne : place ≠ other := Ne.symm hother
      simp [node?, set, hroot, hother, Std.ExtTreeMap.getElem?_insert, hne]

/-- The directories of a file system are directories later on. -/
structure Sustains (files later : FileSystem) : Prop where
  workingDirectory : later.workingDirectory = files.workingDirectory
  directory : ∀ place, files.node? place = some .directory → later.node? place = some .directory

theorem Sustains.refl (files : FileSystem) : files.Sustains files :=
  ⟨rfl, fun _ h => h⟩

theorem Sustains.trans (h : files.Sustains later) (h' : later.Sustains last) :
    files.Sustains last :=
  ⟨h'.workingDirectory.trans h.workingDirectory,
    fun place hplace => h'.directory place (h.directory place hplace)⟩

/-- A walk that succeeds still does when folders have come. -/
theorem Sustains.walk (h : files.Sustains later) (hwalk : files.walk place parts = .ok other) :
    later.walk place parts = .ok other := by
  induction parts generalizing place with
  | nil =>
      exact hwalk
  | cons part rest ih =>
      rcases walk_cons_eq_ok_iff.1 hwalk with ⟨middle, hstep, hrest⟩
      rcases step_eq_ok_iff.1 hstep with ⟨hplace, hsize, hnext⟩
      have hlater := step_eq_ok_iff.2 ⟨h.directory place hplace, hsize, hnext⟩
      exact walk_cons_eq_ok_iff.2 ⟨middle, hlater, ih hrest⟩

/-- A path is located by following its parts from where it starts. -/
theorem locate_eq_ok_iff :
    files.locate path = .ok place ↔
      checkPath path = .ok () ∧
        files.walk (files.start path) (UnixPath.parts path) = .ok place := by
  unfold locate
  cases checkPath path <;> simp [bind, Except.bind]

/-- A path leads to the same place as long as no directory is taken away. -/
theorem Sustains.locate (h : files.Sustains later) (hlocate : files.locate path = .ok place) :
    later.locate path = .ok place := by
  rcases locate_eq_ok_iff.1 hlocate with ⟨hcheck, hwalk⟩
  refine locate_eq_ok_iff.2 ⟨hcheck, ?_⟩
  have hstart : later.start path = files.start path := by
    simp [start, h.workingDirectory]
  rw [hstart]
  exact h.walk hwalk

/-- Nothing but new directories came to a file system. -/
structure Grows (files later : FileSystem) : Prop where
  workingDirectory : later.workingDirectory = files.workingDirectory
  kept : ∀ place node, files.node? place = some node → later.node? place = some node
  added : ∀ place, files.node? place = none →
    later.node? place = none ∨ later.node? place = some .directory

theorem Grows.refl (files : FileSystem) : files.Grows files :=
  ⟨rfl, fun _ _ h => h, fun _ h => Or.inl h⟩

theorem Grows.trans (h : files.Grows later) (h' : later.Grows last) : files.Grows last where
  workingDirectory := h'.workingDirectory.trans h.workingDirectory
  kept := fun place node hnode => h'.kept place node (h.kept place node hnode)
  added := by
    intro place hnone
    rcases h.added place hnone with hlater | hlater
    · exact h'.added place hlater
    · exact Or.inr (h'.kept place _ hlater)

/-- Growing is a way to lose no folder. -/
theorem Grows.sustains (h : files.Grows later) : files.Sustains later :=
  ⟨h.workingDirectory, fun place hplace => h.kept place _ hplace⟩

/-- Making a folder where nothing stands is growth. -/
theorem grows_set_directory (hplace : place ≠ []) (hnone : files.node? place = none) :
    files.Grows (files.set place .directory) where
  workingDirectory := rfl
  kept := by
    intro other node hnode
    have hne : other ≠ place := by
      rintro rfl
      rw [hnone] at hnode
      cases hnode
    rw [node?_set hplace, if_neg hne]
    exact hnode
  added := by
    intro other hother
    rw [node?_set hplace]
    by_cases heq : other = place
    · exact Or.inr (if_pos heq)
    · exact Or.inl (by rw [if_neg heq, hother])

/-- Writing a file where no folder stands loses no folder. -/
theorem sustains_set_file (hplace : place ≠ []) (hfile : files.node? place ≠ some .directory)
    (content : FileContent) : files.Sustains (files.set place (.file content)) where
  workingDirectory := rfl
  directory := by
    intro other hother
    have hne : other ≠ place := by
      rintro rfl
      exact hfile hother
    rw [node?_set hplace, if_neg hne]
    exact hother

/-! ## Operations -/

/-- Walking one part further is one step from where the walk ended. -/
theorem walk_append_singleton (h : files.walk place parts = .ok other) (part : String) :
    files.walk place (parts ++ [part]) = files.step other part := by
  induction parts generalizing place with
  | nil =>
      have hsame : place = other := Except.ok.inj h
      subst hsame
      cases hstep : files.step place part <;> simp [walk, hstep, bind, Except.bind]
  | cons first rest ih =>
      rcases walk_cons_eq_ok_iff.1 h with ⟨middle, hstep, hrest⟩
      have htail := ih hrest
      simpa [walk, hstep, bind, Except.bind] using htail

/-- The entry that a path is about is a name in a directory that the path leads to. -/
theorem of_entryOf (h : files.entryOf path = .ok (some (place, name))) :
    checkPath path = .ok () ∧ name ≠ "." ∧ name ≠ ".." ∧
      ∃ before, (UnixPath.parts path).reverse.dropWhile (· = "") = name :: before ∧
        files.walk (files.start path) before.reverse = .ok place := by
  unfold entryOf at h
  cases hcheck : checkPath path with
  | error e =>
      simp [hcheck, bind, Except.bind] at h
  | ok u =>
      rcases hparts : (UnixPath.parts path).reverse.dropWhile (· = "") with _ | ⟨last, before⟩
      · simp [hcheck, hparts, bind, Except.bind, pure, Except.pure] at h
      · by_cases hdots : last = "." ∨ last = ".."
        · simp only [hcheck, hparts, hdots, bind, Except.bind, pure, Except.pure, if_true] at h
          split at h
          · cases h
          · split at h <;> cases h
        · cases hwalk : files.walk (files.start path) before.reverse with
          | error e =>
              simp [hcheck, hparts, hdots, hwalk, bind, Except.bind] at h
          | ok directory =>
              cases henter : files.enter directory with
              | error e =>
                  simp [hcheck, hparts, hdots, hwalk, henter, bind, Except.bind] at h
              | ok u =>
                  have hpair : directory = place ∧ last = name := by
                    simpa [hcheck, hparts, hdots, hwalk, henter, bind, Except.bind, pure,
                      Except.pure] using h
                  rcases hpair with ⟨rfl, rfl⟩
                  rcases not_or.1 hdots with ⟨hhere, hup⟩
                  exact ⟨rfl, hhere, hup, before, rfl, hwalk⟩

/-- The place of an entry is below its directory. -/
theorem ne_nil_of_entryOf (h : files.entryOf path = .ok (some (place, name)))
    (hstep : files.step place name = .ok other) : other ≠ [] := by
  rcases of_entryOf h with ⟨-, hhere, hup, before, hname, -⟩
  have hempty : name ≠ "" := by
    have hkept := List.head?_dropWhile_not (· = "") (UnixPath.parts path).reverse
    simp only [hname, List.head?_cons] at hkept
    simpa using hkept
  have hnext := (step_eq_ok_iff.1 hstep).2.2
  rw [UnixPath.next, if_neg (by simp [hempty, hhere]), if_neg hup] at hnext
  simp [← hnext]

/-- A path that does not end with a slash leads to the entry that it is about. -/
theorem locate_of_entryOf (h : files.entryOf path = .ok (some (place, name)))
    (hslash : path.toList.getLast? ≠ some '/') (hstep : files.step place name = .ok other) :
    files.locate path = .ok other := by
  rcases of_entryOf h with ⟨hcheck, -, -, before, hname, hwalk⟩
  have hpath : path ≠ "" := by
    rintro rfl
    cases hcheck
  have hlast : (UnixPath.parts path).reverse.head? ≠ some "" := by
    rw [List.head?_reverse]
    exact UnixPath.getLast?_parts_ne hpath hslash
  -- No part is dropped at the end.
  have hreverse : (UnixPath.parts path).reverse = name :: before := by
    rcases hall : (UnixPath.parts path).reverse with _ | ⟨first, more⟩
    · simp [hall] at hname
    · have hfirst : first ≠ "" := by simpa [hall] using hlast
      simpa [hall, hfirst] using hname
  have hparts : UnixPath.parts path = before.reverse ++ [name] := by
    rw [← List.reverse_reverse (UnixPath.parts path), hreverse, List.reverse_cons]
  refine locate_eq_ok_iff.2 ⟨hcheck, ?_⟩
  rw [hparts, walk_append_singleton hwalk]
  exact hstep

theorem atomic_write (path : String) (content : FileContent) :
    Edit.Atomic (write path content) := by
  refine Edit.readOnly_get.atomic_bind fun files => Edit.readOnly_check.atomic_bind fun entry => ?_
  rcases entry with _ | ⟨directory, name⟩
  · exact Edit.atomic_throw
  · refine Edit.Atomic.ite Edit.atomic_throw_bind ?_
    refine Edit.readOnly_check.atomic_bind fun place => ?_
    exact Edit.Atomic.ite Edit.atomic_throw_bind Edit.atomic_set

/-- An accepted write has located its path, found no folder there and set the file. -/
theorem of_run_write {u : Unit} (h : (write path content).run files = .ok u later) :
    ∃ place, place ≠ [] ∧ files.locate path = .ok place ∧ files.node? place ≠ some .directory ∧
      later = files.set place (.file content) := by
  rcases Edit.run_bind_eq_ok.1 h with ⟨_, _, hget, h⟩
  rcases Edit.run_get_eq_ok.1 hget with ⟨rfl, rfl⟩
  rcases Edit.run_bind_eq_ok.1 h with ⟨entry, _, hcheck, h⟩
  rcases Edit.run_check_eq_ok.1 hcheck with ⟨hentry, rfl⟩
  rcases entry with _ | ⟨directory, name⟩
  · exact (Edit.run_throw_eq_ok.1 h).elim
  · rcases Edit.run_guard_eq_ok.1 h with ⟨hslash, h⟩
    rcases Edit.run_bind_eq_ok.1 h with ⟨place, _, hcheck, h⟩
    rcases Edit.run_check_eq_ok.1 hcheck with ⟨hstep, rfl⟩
    rcases Edit.run_guard_eq_ok.1 h with ⟨hfile, h⟩
    exact ⟨place, ne_nil_of_entryOf hentry hstep, locate_of_entryOf hentry hslash hstep, hfile,
      (Edit.run_set_eq_ok.1 h).symm⟩

/-- Writing is refused and changes nothing, or it sets the file that the path leads to. -/
theorem run_write_cases (path : String) (content : FileContent) (files : FileSystem) :
    (∃ e, (write path content).run files = .error e files) ∨
      ∃ place, (write path content).run files = .ok () (files.set place (.file content)) ∧
        place ≠ [] ∧ files.locate path = .ok place ∧ files.node? place ≠ some .directory := by
  cases hrun : (write path content).run files with
  | ok u later =>
      rcases of_run_write hrun with ⟨place, hne, hlocate, hfile, rfl⟩
      exact Or.inr ⟨place, rfl, hne, hlocate, hfile⟩
  | error e later =>
      rw [atomic_write path content files later e hrun]
      exact Or.inl ⟨e, rfl⟩

theorem atomic_makeDirectory (path : String) : Edit.Atomic (makeDirectory path) := by
  refine Edit.readOnly_get.atomic_bind fun files => Edit.readOnly_check.atomic_bind fun entry => ?_
  rcases entry with _ | ⟨directory, name⟩
  · exact Edit.atomic_throw
  · refine Edit.readOnly_check.atomic_bind fun place => ?_
    exact Edit.Atomic.ite Edit.atomic_throw_bind Edit.atomic_set

/-- Whether or not it is refused, making a directory adds at most that. -/
theorem keeps_makeDirectory (path : String) : Edit.Keeps Grows (makeDirectory path) := by
  intro files
  refine (atomic_makeDirectory path).holds_stateAfter (Grows.refl files) ?_
  intro u later h
  rcases Edit.run_bind_eq_ok.1 h with ⟨_, _, hget, h⟩
  rcases Edit.run_get_eq_ok.1 hget with ⟨rfl, rfl⟩
  rcases Edit.run_bind_eq_ok.1 h with ⟨entry, _, hcheck, h⟩
  rcases Edit.run_check_eq_ok.1 hcheck with ⟨hentry, rfl⟩
  rcases entry with _ | ⟨directory, name⟩
  · exact (Edit.run_throw_eq_ok.1 h).elim
  · rcases Edit.run_bind_eq_ok.1 h with ⟨place, _, hcheck, h⟩
    rcases Edit.run_check_eq_ok.1 hcheck with ⟨hstep, rfl⟩
    rcases Edit.run_guard_eq_ok.1 h with ⟨hnone, h⟩
    rw [← Edit.run_set_eq_ok.1 h]
    exact grows_set_directory (ne_nil_of_entryOf hentry hstep) (by simpa using hnone)

end FileSystem
end DesignTokens
